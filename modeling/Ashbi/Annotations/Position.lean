import Mathlib.Algebra.Order.Ring.Rat
import Mathlib.Data.Rat.Defs
import Ashbi.Js
import Ashbi.Numeric.Box

/-! The positions of review annotations: how they are checked, stored and shown. -/

namespace Ashbi.Annotations

open Boxes

inductive Kind
  | image
  | pdf
  | video
  | audio
  deriving DecidableEq

/-- A value that is not typed. `null` is also undefined, and `other` neither a finite number nor an
array. -/
inductive Value
  | null
  | number (value : ℚ)
  | array (elements : List Value)
  | other

/-- The position of an annotation as a request gives it. -/
structure Input where
  parentId : Option String
  timecodeMs : Option ℚ
  pageNumber : Option ℚ
  region : Option (Box Value)
  shape : Option String
  points : Value
  color : Option String

/-- The columns of a row of `review_annotations` that hold its position. -/
structure Position where
  timecodeMs : Option ℚ
  pageNumber : Option ℚ
  regionX : Value
  regionY : Value
  regionW : Value
  regionH : Value
  shape : Option String
  points : Value
  color : Option String

structure Annotation extends Position where
  id : String
  parentId : Option String
  authorType : String
  authorName : String
  body : String
  resolvedAt : Option Time
  createdAt : Time

/-- What is shown of an annotation. -/
structure PublicAnnotation where
  id : String
  parentId : Option String
  authorType : String
  authorName : String
  body : String
  timecodeMs : Option ℚ
  region : Option (Box Value)
  shape : Option String
  points : Value
  color : Option String
  pageNumber : Option ℚ
  resolved : Bool
  resolvedAt : Option Time
  createdAt : Time

/-! ### Values -/

def Value.isNull : Value → Bool
  | .null => true
  | _ => false

/-- `Array.isArray`, with the elements. -/
def Value.elements : Value → Option (List Value)
  | .array elements => some elements
  | _ => none

def Value.number? : Value → Option ℚ
  | .number value => some value
  | _ => none

/-- The number itself, where `isUnit` was asked before. -/
def Value.amount (value : Value) : ℚ := value.number?.getD 0

/-- `value === number`. -/
def Value.equals (value : Value) (number : ℚ) : Bool := value.number? = some number

/-- `point[index]`. -/
def Value.element (point : Value) (index : ℕ) : Value := (point.elements.getD []).getD index .null

/-- `Math.min` or `Math.max` of numbers, and of nothing else. -/
def extreme (choose : List ℚ → Option ℚ) (values : List Value) : Value :=
  match (values.mapM Value.number?).bind choose with
  | some value => .number value
  | none => .other

def Value.minus (a b : Value) : Value :=
  match a.number?, b.number? with
  | some a, some b => .number (a - b)
  | _, _ => .other

/-! ### The check -/

def annotationShapes : List String := ["pin", "rect", "arrow", "pen"]

def annotationColors : List String := ["red", "orange", "yellow", "green", "blue", "purple"]

def shapePointsMax : ℕ := 500

def isUnit (value : Value) : Bool := value.number?.any fun n => 0 ≤ n ∧ n ≤ 1

def isPair (point : Value) : Bool :=
  point.elements.any fun pair => pair.length = 2 ∧ isUnit (point.element 0) ∧
    isUnit (point.element 1)

def pointsError (points : Value) (shape : String) : Option String :=
  match points.elements with
  | none => some "points must be a list of [x, y] pairs"
  | some points =>
    if points.length < 2 ∨ shapePointsMax < points.length then
      some s!"A {shape} needs 2 to {shapePointsMax} points"
    else if shape = "arrow" ∧ points.length ≠ 2 then some "An arrow has exactly two points"
    else if points.all isPair then none
    else some "Every point must be an [x, y] pair with each value from 0 to 1"

def boundingRegion (points : List Value) : Box Value :=
  let xs := points.map (·.element 0)
  let ys := points.map (·.element 1)
  let x := extreme List.min? xs
  let y := extreme List.min? ys
  ⟨x, y, (extreme List.max? xs).minus x, (extreme List.max? ys).minus y⟩

/-- What a region without a shape stands for. -/
def bareShape (w h : Value) : String := if w.equals 0 ∧ h.equals 0 then "pin" else "rect"

def shapeOf (input : Input) : Option String :=
  (Js.truthy input.shape).or (input.region.map fun region => bareShape region.w region.h)

def Input.marked (input : Input) : Bool :=
  input.region.isSome || input.shape.isSome || !input.points.isNull

/-- The checks of a pin or an area. -/
def regionError (shape : String) (region : Box Value) : Option String :=
  if ¬ [region.x, region.y, region.w, region.h].all isUnit then
    some "Region values must be from 0 to 1"
  else if 1 < region.x.amount + region.w.amount ∨ 1 < region.y.amount + region.h.amount then
    some "The region must lie within the media"
  else if shape = "pin" ∧ (region.w.amount ≠ 0 ∨ region.h.amount ≠ 0) then
    some "A pin is a point: its width and height are 0"
  else if shape = "rect" ∧ (region.w.amount ≤ 0 ∨ region.h.amount ≤ 0) then
    some "An area needs a width and a height"
  else none

/-- The checks of what is drawn. A shape that is missing is put into a text as null. -/
def markupError (input : Input) : Option String :=
  let shape := (shapeOf input).getD "null"
  if shape = "pin" ∨ shape = "rect" then
    if ¬ input.points.isNull then some s!"A {shape} is described by its region, not by points"
    else match input.region with
      | none => some s!"A {shape} needs a region"
      | some region => regionError shape region
  else if input.region.isSome then some s!"A {shape} is described by its points, not by a region"
  else if input.points.isNull then some s!"A {shape} needs points"
  else pointsError input.points shape

/-- The checks of the kind of medium, in their order. -/
def anchorError (kind : Option Kind) (input : Input) : Option String :=
  if (Js.truthy input.parentId).isSome ∧
      (input.timecodeMs.isSome ∨ input.marked ∨ input.pageNumber.isSome ∨ input.color.isSome) then
    some "Replies cannot have a timecode, shape or page"
  else if input.timecodeMs.isSome ∧ kind ≠ some .video ∧ kind ≠ some .audio then
    some "A timecode applies only to video or audio"
  else if input.pageNumber.isSome ∧ kind ≠ some .pdf then some "A page number applies only to PDFs"
  else if input.marked ∧ (kind = some .audio ∨ kind = none) then
    some "Shapes apply only to images, PDF pages and video frames"
  else if input.marked ∧ kind = some .pdf ∧ input.pageNumber = none then
    some "A shape on a PDF needs the page it is drawn on"
  else if input.marked ∧ kind = some .video ∧ input.timecodeMs = none then
    some "A shape on a video needs the timecode of its frame"
  else if input.color.isSome ∧ ¬ input.marked then some "A color applies only to a shape"
  else none

def annotationPositionError (kind : Option Kind) (input : Input) : Option String :=
  match anchorError kind input with
  | some error => some error
  | none =>
    if input.color.any (· ∉ annotationColors) then some "Unknown shape color"
    else if input.shape.any (· ∉ annotationShapes) then some "Unknown shape"
    else if ¬ input.marked then none
    else if ¬ input.points.isNull ∧ input.shape = none then
      some "Points need a shape (arrow or pen)"
    else markupError input

/-! ### Columns -/

def annotationPositionData (input : Input) : Position :=
  let shape := shapeOf input
  let points := if shape = some "arrow" ∨ shape = some "pen" then input.points.elements else none
  let region := (points.map boundingRegion).or input.region
  { timecodeMs := input.timecodeMs
    pageNumber := input.pageNumber
    regionX := (region.map Box.x).getD .null
    regionY := (region.map Box.y).getD .null
    regionW := (region.map Box.w).getD .null
    regionH := (region.map Box.h).getD .null
    shape := shape
    points := (points.map fun points =>
      Value.array (points.map fun point => .array [point.element 0, point.element 1])).getD .null
    color := (Js.truthy shape).bind fun _ => input.color }

def regionOf (row : Annotation) : Option (Box Value) :=
  if row.regionX.isNull then none
  else some ⟨row.regionX, row.regionY, row.regionW, row.regionH⟩

def publicAnnotation (row : Annotation) : PublicAnnotation where
  id := row.id
  parentId := row.parentId
  authorType := row.authorType
  authorName := row.authorName
  body := row.body
  timecodeMs := row.timecodeMs
  region := regionOf row
  shape := row.shape.or
    ((regionOf row).map fun _ => bareShape row.regionW row.regionH)
  points := if row.points.elements.isSome then row.points else .null
  color := row.color
  pageNumber := row.pageNumber
  resolved := row.resolvedAt.isSome
  resolvedAt := row.resolvedAt
  createdAt := row.createdAt

/-! ### What a check that passes has established -/

theorem passed {wrong : Prop} [Decidable wrong] {text : String} {rest : Option String} :
    (if wrong then some text else rest) = none ↔ ¬ wrong ∧ rest = none := by
  by_cases hwrong : wrong
  · simp [hwrong]
  · simp [hwrong]

/-- The unit square. -/
def square : Box ℚ := ⟨0, 0, 1, 1⟩

/-- A box with points, all of them in the unit square. -/
def Inside (box : Box ℚ) : Prop := box.area.Nonempty ∧ box.area ⊆ square.area

def numbers (box : Box ℚ) : Box Value :=
  ⟨.number box.x, .number box.y, .number box.w, .number box.h⟩

def pair (p : ℚ × ℚ) : Value := .array [.number p.1, .number p.2]

variable {kind : Option Kind} {input : Input} {value : Value} {box : Box ℚ}

theorem inside_of_bounds (x : 0 ≤ box.x) (w : 0 ≤ box.w) (right : box.x + box.w ≤ 1)
    (y : 0 ≤ box.y) (h : 0 ≤ box.h) (above : box.y + box.h ≤ 1) : Inside box := by
  refine ⟨area_nonempty.mpr ⟨w, h⟩, area_subset x ?_ y ?_⟩
  · simpa [square] using right
  · simpa [square] using above

theorem number_of_isUnit (h : isUnit value = true) : ∃ n, value = .number n ∧ 0 ≤ n ∧ n ≤ 1 := by
  cases value with
  | number n => exact ⟨n, rfl, by simpa [isUnit, Value.number?] using h⟩
  | null => cases h
  | array elements => cases h
  | other => cases h

theorem pair_of_isPair (h : isPair value = true) : ∃ p, value = pair p ∧ p ∈ square.area := by
  cases value with
  | array elements =>
    have hpair : elements.length = 2 ∧ isUnit (elements.getD 0 .null) = true ∧
        isUnit (elements.getD 1 .null) = true := of_decide_eq_true h
    obtain ⟨hlength, hx, hy⟩ := hpair
    obtain ⟨first, second, rfl⟩ := List.length_eq_two.mp hlength
    obtain ⟨x, hfirst, hx⟩ := number_of_isUnit hx
    obtain ⟨y, hsecond, hy⟩ := number_of_isUnit hy
    refine ⟨(x, y), ?_, ?_⟩
    · simp only [List.getD_cons_zero, List.getD_cons_succ] at hfirst hsecond
      rw [hfirst, hsecond, pair]
    · simpa [mem_area, square] using And.intro hx hy
  | null => cases h
  | number n => cases h
  | other => cases h

theorem pairs_of_isPair {points : List Value} (h : points.all isPair = true) :
    ∃ pairs : List (ℚ × ℚ), points = pairs.map pair ∧ ∀ p ∈ pairs, p ∈ square.area := by
  induction points with
  | nil => exact ⟨[], rfl, by simp⟩
  | cons point points ih =>
    rw [List.all_cons, Bool.and_eq_true] at h
    obtain ⟨p, rfl, hp⟩ := pair_of_isPair h.1
    obtain ⟨pairs, rfl, hpairs⟩ := ih h.2
    exact ⟨p :: pairs, rfl, List.forall_mem_cons.mpr ⟨hp, hpairs⟩⟩

/-- A region that is checked has numbers in the unit square. -/
theorem inside_of_regionError {shape : String} {region : Box Value}
    (h : regionError shape region = none) : ∃ box, region = numbers box ∧ Inside box := by
  simp only [regionError, passed] at h
  obtain ⟨hunit, hwithin, -⟩ := h
  simp only [not_not, List.all_cons, List.all_nil, Bool.and_true, Bool.and_eq_true] at hunit
  obtain ⟨x, hx, hx0, -⟩ := number_of_isUnit hunit.1
  obtain ⟨y, hy, hy0, -⟩ := number_of_isUnit hunit.2.1
  obtain ⟨w, hw, hw0, -⟩ := number_of_isUnit hunit.2.2.1
  obtain ⟨height, hh, hh0, -⟩ := number_of_isUnit hunit.2.2.2
  obtain ⟨rx, ry, rw, rh⟩ := region
  simp only at hx hy hw hh
  subst hx hy hw hh
  simp only [Value.amount, Value.number?, Option.getD_some, not_or, not_lt] at hwithin
  exact ⟨⟨x, y, w, height⟩, rfl, inside_of_bounds hx0 hw0 hwithin.1 hy0 hh0 hwithin.2⟩

/-- A list of points that is checked has at least two pairs in the unit square. -/
theorem pairs_of_pointsError {shape : String} (h : pointsError value shape = none) :
    ∃ pairs : List (ℚ × ℚ), value = .array (pairs.map pair) ∧ pairs ≠ [] ∧
      ∀ p ∈ pairs, p ∈ square.area := by
  cases value with
  | array points =>
    simp only [pointsError, Value.elements, passed] at h
    obtain ⟨hlength, -, h⟩ := h
    have hall : points.all isPair = true := by
      by_contra hall
      rw [if_neg hall] at h
      cases h
    obtain ⟨pairs, rfl, hpairs⟩ := pairs_of_isPair hall
    refine ⟨pairs, rfl, ?_, hpairs⟩
    rintro rfl
    exact hlength (Or.inl (by decide))
  | null => cases h
  | number n => cases h
  | other => cases h

theorem mapM_number? (xs : List ℚ) : (xs.map Value.number).mapM Value.number? = some xs := by
  induction xs with
  | nil => rfl
  | cons x xs ih =>
    rw [List.map_cons, List.mapM_cons, ih]
    rfl

theorem extreme_numbers {choose : List ℚ → Option ℚ} {xs : List ℚ} {n : ℚ}
    (h : choose xs = some n) : extreme choose (xs.map Value.number) = .number n := by
  rw [extreme, mapM_number?, Option.bind_some, h]

/-- The region of a list of points is the least box around them. -/
theorem boundingRegion_pairs {pairs : List (ℚ × ℚ)} (hne : pairs ≠ [])
    (hinside : ∀ p ∈ pairs, p ∈ square.area) :
    ∃ box, boundingRegion (pairs.map pair) = numbers box ∧ Inside box ∧
      IsLeast (around {p | p ∈ pairs}) box.area := by
  have hmap : ∀ f : ℚ × ℚ → ℚ, pairs.map f ≠ [] := by simpa using hne
  obtain ⟨left, hleft⟩ := Option.isSome_iff_exists.mp (List.isSome_min?_iff.mpr (hmap Prod.fst))
  obtain ⟨right, hright⟩ := Option.isSome_iff_exists.mp (List.isSome_max?_iff.mpr (hmap Prod.fst))
  obtain ⟨below, hbelow⟩ := Option.isSome_iff_exists.mp (List.isSome_min?_iff.mpr (hmap Prod.snd))
  obtain ⟨above, habove⟩ := Option.isSome_iff_exists.mp (List.isSome_max?_iff.mpr (hmap Prod.snd))
  have hxs : (pairs.map pair).map (·.element 0) = (pairs.map Prod.fst).map Value.number := by
    simp only [List.map_map]
    rfl
  have hys : (pairs.map pair).map (·.element 1) = (pairs.map Prod.snd).map Value.number := by
    simp only [List.map_map]
    rfl
  have hleast : IsLeast (around {p | p ∈ pairs})
      (Box.mk left below (right - left) (above - below)).area := by
    apply isLeast_around
    · simpa [IsLeast, mem_lowerBounds] using List.min?_eq_some_iff.mp hleft
    · simpa [IsGreatest, mem_upperBounds] using List.max?_eq_some_iff.mp hright
    · simpa [IsLeast, mem_lowerBounds] using List.min?_eq_some_iff.mp hbelow
    · simpa [IsGreatest, mem_upperBounds] using List.max?_eq_some_iff.mp habove
  obtain ⟨p, hp⟩ := List.exists_mem_of_ne_nil pairs hne
  refine ⟨⟨left, below, right - left, above - below⟩, ?_, ⟨⟨p, hleast.1.1 hp⟩, ?_⟩, hleast⟩
  · simp only [boundingRegion, hxs, hys, extreme_numbers hleft, extreme_numbers hright,
      extreme_numbers hbelow, extreme_numbers habove]
    rfl
  · exact hleast.2 ⟨hinside, square, rfl⟩

/-- What the kind of medium and a reply allow. -/
structure Anchored (kind : Option Kind) (input : Input) : Prop where
  reply : (Js.truthy input.parentId).isSome →
    input.timecodeMs = none ∧ input.marked = false ∧ input.pageNumber = none ∧ input.color = none
  timecode : input.timecodeMs.isSome → kind = some .video ∨ kind = some .audio
  page : input.pageNumber.isSome → kind = some .pdf
  marked : input.marked = true → kind = some .image ∨ kind = some .pdf ∨ kind = some .video
  color : input.color.isSome → input.marked = true

theorem anchored_of_anchorError (h : anchorError kind input = none) : Anchored kind input := by
  simp only [anchorError, passed, not_and, not_not, not_or, ne_eq] at h
  obtain ⟨reply, timecode, page, marked, -, -, color, -⟩ := h
  refine ⟨?_, ?_, page, ?_, color⟩
  · intro hreply
    obtain ⟨htimecode, hmarked, hpage, hcolor⟩ := reply hreply
    simp_all
  · intro htimecode
    by_cases hvideo : kind = some .video
    · exact Or.inl hvideo
    · exact Or.inr (timecode htimecode hvideo)
  · intro hmarked
    obtain ⟨haudio, hkind⟩ := marked hmarked
    rcases kind with _ | _ | _ | _ | _
    · exact absurd rfl hkind
    · exact Or.inl rfl
    · exact Or.inr (Or.inl rfl)
    · exact Or.inr (Or.inr rfl)
    · exact absurd rfl haudio

/-- What an input draws. -/
inductive Drawn (input : Input) : Prop
  | nothing (region : input.region = none) (shape : input.shape = none)
      (points : input.points = .null)
  | area (box : Box ℚ) (region : input.region = some (numbers box)) (inside : Inside box)
      (points : input.points = .null)
      (shape : shapeOf input = some "pin" ∨ shapeOf input = some "rect")
  | path (pairs : List (ℚ × ℚ)) (region : input.region = none)
      (points : input.points = .array (pairs.map pair)) (nonempty : pairs ≠ [])
      (inside : ∀ p ∈ pairs, p ∈ square.area)
      (shape : shapeOf input = some "arrow" ∨ shapeOf input = some "pen")

/-- What an input that passes the check is. -/
structure Accepted (kind : Option Kind) (input : Input) : Prop extends Anchored kind input where
  known : Js.truthy input.shape = input.shape
  drawn : Drawn input

theorem isNull_iff : value.isNull = true ↔ value = .null := by
  cases value <;> simp [Value.isNull]

theorem unmarked_iff : input.marked = false ↔
    input.region = none ∧ input.shape = none ∧ input.points = .null := by
  simp [Input.marked, isNull_iff, and_assoc]

/-- A shape that is known is not the empty string. -/
theorem truthy_of_known (h : ∀ shape ∈ input.shape, shape ∈ annotationShapes) :
    Js.truthy input.shape = input.shape := by
  cases hshape : input.shape with
  | none => rfl
  | some shape =>
    have hknown := h shape hshape
    have hne : shape ≠ "" := by
      rintro rfl
      exact absurd hknown (by decide)
    exact Js.truthy_some hne

theorem drawn_of_markupError (hknown : ∀ shape ∈ input.shape, shape ∈ annotationShapes)
    (hpoints : input.points.isNull = false → input.shape.isSome)
    (h : markupError input = none) : Drawn input := by
  by_cases hshape : (shapeOf input).getD "null" = "pin" ∨ (shapeOf input).getD "null" = "rect"
  · have hdrawn : shapeOf input = some "pin" ∨ shapeOf input = some "rect" := by
      cases hof : shapeOf input with
      | none => simp [hof] at hshape
      | some shape => simpa [hof] using hshape
    rw [markupError, if_pos hshape, passed, not_not, isNull_iff] at h
    cases hregion : input.region with
    | none => simp [hregion] at h
    | some region =>
      obtain ⟨box, rfl, hinside⟩ := inside_of_regionError (by simpa [hregion] using h.2)
      exact .area box hregion hinside h.1 hdrawn
  · rw [markupError, if_neg hshape, passed, passed, Option.not_isSome_iff_eq_none,
      Bool.not_eq_true] at h
    obtain ⟨hregion, hmissing, herror⟩ := h
    obtain ⟨pairs, hpairs, hne, hinside⟩ := pairs_of_pointsError herror
    obtain ⟨shape, hsome⟩ := Option.isSome_iff_exists.mp (hpoints hmissing)
    have hof : shapeOf input = some shape := by
      rw [shapeOf, truthy_of_known hknown, hsome, Option.some_or]
    have hlist := hknown shape hsome
    refine .path pairs hregion hpairs hne hinside ?_
    simp only [hof, Option.getD_some, not_or] at hshape
    simp only [annotationShapes, List.mem_cons, List.not_mem_nil, or_false] at hlist
    simp only [hof, Option.some.injEq]
    tauto

theorem accepted_of_error (h : annotationPositionError kind input = none) :
    Accepted kind input := by
  unfold annotationPositionError at h
  cases hanchor : anchorError kind input with
  | some error => simp [hanchor] at h
  | none =>
    simp only [hanchor, passed, Bool.not_eq_true, Option.any_eq_false] at h
    obtain ⟨-, hshape, h⟩ := h
    have hknown : ∀ shape ∈ input.shape, shape ∈ annotationShapes := by
      intro shape hmem
      simpa using hshape shape hmem
    refine ⟨anchored_of_anchorError hanchor, truthy_of_known hknown, ?_⟩
    cases hmarked : input.marked with
    | false =>
      obtain ⟨hregion, hshape, hpoints⟩ := unmarked_iff.mp hmarked
      exact .nothing hregion hshape hpoints
    | true =>
      simp only [hmarked, reduceCtorEq, if_false, passed] at h
      refine drawn_of_markupError hknown ?_ h.2
      intro hnull
      by_contra hnone
      exact h.1 ⟨by simp [hnull], by simpa using hnone⟩

/-! ### Reading back -/

variable {row : Annotation}

/-- A row that shows what an input gave. -/
structure Restored (input : Input) (shown : PublicAnnotation) : Prop where
  timecodeMs : shown.timecodeMs = input.timecodeMs
  pageNumber : shown.pageNumber = input.pageNumber
  color : shown.color = input.color
  points : shown.points = input.points
  explicit : ∀ shape, input.shape = some shape → shown.shape = some shape
  bare : ∀ region, input.shape = none → input.region = some region → ∃ box, region = numbers box ∧
    shown.shape = some (if box.w = 0 ∧ box.h = 0 then "pin" else "rect")
  unshaped : input.shape = none → input.region = none → shown.shape = none
  region : input.points = .null → shown.region = input.region
  bounding : input.points ≠ .null → ∃ (pairs : List (ℚ × ℚ)) (box : Box ℚ),
    input.points = .array (pairs.map pair) ∧ shown.region = some (numbers box) ∧
      IsLeast (around {p | p ∈ pairs}) box.area
  inside : ∀ region, shown.region = some region → ∃ box, region = numbers box ∧ Inside box

/-- No column is set that the kind of medium or a reply forbids. -/
structure Permitted (kind : Option Kind) (input : Input) (position : Position) : Prop where
  timecodeMs : position.timecodeMs ≠ none → kind = some .video ∨ kind = some .audio
  pageNumber : position.pageNumber ≠ none → kind = some .pdf
  markup : position.regionX ≠ .null ∨ position.regionY ≠ .null ∨ position.regionW ≠ .null ∨
    position.regionH ≠ .null ∨ position.shape ≠ none ∨ position.points ≠ .null ∨
    position.color ≠ none → kind = some .image ∨ kind = some .pdf ∨ kind = some .video
  reply : ∀ parentId, input.parentId = some parentId → parentId ≠ "" →
    position = ⟨none, none, .null, .null, .null, .null, none, .null, none⟩

theorem data_of_nothing (accepted : Accepted kind input) (hregion : input.region = none)
    (hshape : input.shape = none) (hpoints : input.points = .null) :
    input.color = none ∧ annotationPositionData input =
      ⟨input.timecodeMs, input.pageNumber, .null, .null, .null, .null, none, .null, none⟩ := by
  have hof : shapeOf input = none := by
    rw [shapeOf, accepted.known, hshape, hregion]
    rfl
  constructor
  · by_contra hcolor
    have hmarked := accepted.color (Option.isSome_iff_ne_none.mpr hcolor)
    rw [unmarked_iff.mpr ⟨hregion, hshape, hpoints⟩] at hmarked
    cases hmarked
  · simp [annotationPositionData, hof, hregion]

theorem data_of_area (hregion : input.region = some (numbers box))
    (hshape : shapeOf input = some "pin" ∨ shapeOf input = some "rect") :
    annotationPositionData input = ⟨input.timecodeMs, input.pageNumber, .number box.x,
      .number box.y, .number box.w, .number box.h, shapeOf input, .null, input.color⟩ := by
  rcases hshape with hshape | hshape
  · simp [annotationPositionData, hshape, hregion, numbers]
  · simp [annotationPositionData, hshape, hregion, numbers]

theorem data_of_path {pairs : List (ℚ × ℚ)} (hpoints : input.points = .array (pairs.map pair))
    (hshape : shapeOf input = some "arrow" ∨ shapeOf input = some "pen")
    (hbox : boundingRegion (pairs.map pair) = numbers box) :
    annotationPositionData input = ⟨input.timecodeMs, input.pageNumber, .number box.x,
      .number box.y, .number box.w, .number box.h, shapeOf input, .array (pairs.map pair),
      input.color⟩ := by
  have hcopy : (pairs.map pair).map (fun point => Value.array [point.element 0, point.element 1]) =
      pairs.map pair := by
    rw [List.map_map]
    rfl
  rcases hshape with hshape | hshape
  · simp [annotationPositionData, hshape, hpoints, Value.elements, hbox, hcopy, numbers]
  · simp [annotationPositionData, hshape, hpoints, Value.elements, hbox, hcopy, numbers]

theorem shapeOf_explicit (accepted : Accepted kind input) {shape : String}
    (h : input.shape = some shape) : shapeOf input = some shape := by
  rw [shapeOf, accepted.known, h, Option.some_or]

theorem shapeOf_bare (h : input.shape = none) (hregion : input.region = some (numbers box)) :
    shapeOf input = some (if box.w = 0 ∧ box.h = 0 then "pin" else "rect") := by
  rw [shapeOf, h, hregion]
  simp [bareShape, numbers, Value.equals, Value.number?]

/-- An input without a mark is restored from columns without one. -/
theorem restored_of_nothing (accepted : Accepted kind input) (hregion : input.region = none)
    (hshape : input.shape = none) (hpoints : input.points = .null)
    (hstored : row.toPosition = annotationPositionData input) :
    Restored input <| publicAnnotation row := by
  obtain ⟨hcolor, hdata⟩ := data_of_nothing accepted hregion hshape hpoints
  rw [hdata] at hstored
  have hnone : regionOf row = none := by
    simp [regionOf, hstored, Value.isNull]
  constructor
  · simp [hstored, publicAnnotation]
  · simp [hstored, publicAnnotation]
  · simp [hstored, publicAnnotation, hcolor]
  · simp [hstored, publicAnnotation, hpoints, Value.elements]
  · simp [hshape]
  · simp [hregion]
  · simp [hstored, publicAnnotation, hnone]
  · simp [hnone, hregion, publicAnnotation]
  · simp [hpoints]
  · simp [hnone, publicAnnotation]

/-- An input with a mark is restored from the columns of its box. -/
theorem restored_of_box (accepted : Accepted kind input) (hinside : Inside box)
    (hdescribed : (shapeOf input).isSome)
    (hdata : annotationPositionData input = ⟨input.timecodeMs, input.pageNumber, .number box.x,
      .number box.y, .number box.w, .number box.h, shapeOf input, input.points, input.color⟩)
    (hregion : input.points = .null → input.region = some (numbers box))
    (hpoints : input.points ≠ .null → input.region = none ∧ ∃ pairs : List (ℚ × ℚ),
      input.points = .array (pairs.map pair) ∧ IsLeast (around {p | p ∈ pairs}) box.area)
    (hstored : row.toPosition = annotationPositionData input) :
    Restored input <| publicAnnotation row := by
  rw [hdata] at hstored
  obtain ⟨described, hof⟩ := Option.isSome_iff_exists.mp hdescribed
  have hsome : regionOf row = some (numbers box) := by
    simp [regionOf, hstored, Value.isNull, numbers]
  have hshown : (row |> publicAnnotation).shape = shapeOf input := by
    simp [hstored, publicAnnotation, hof]
  have hkept : (row |> publicAnnotation).points = input.points := by
    by_cases hnull : input.points = .null
    · simp [hstored, publicAnnotation, hnull, Value.elements]
    · obtain ⟨-, pairs, hpairs, -⟩ := hpoints hnull
      simp [hstored, publicAnnotation, hpairs, Value.elements]
  constructor
  · simp [hstored, publicAnnotation]
  · simp [hstored, publicAnnotation]
  · simp [hstored, publicAnnotation]
  · exact hkept
  · intro shape h
    rw [hshown, shapeOf_explicit accepted h]
  · intro region h hsomeRegion
    have hnull : input.points = .null := by
      by_contra hnull
      rw [(hpoints hnull).1] at hsomeRegion
      cases hsomeRegion
    have hbox := hregion hnull
    refine ⟨box, Option.some.inj (hsomeRegion.symm.trans hbox), ?_⟩
    rw [hshown, shapeOf_bare h hbox]
  · intro h hnone
    have hnothing : shapeOf input = none := by
      rw [shapeOf, h, hnone]
      rfl
    rw [hnothing] at hof
    cases hof
  · intro hnull
    rw [hregion hnull]
    exact hsome
  · intro hnull
    obtain ⟨-, pairs, hpairs, hleast⟩ := hpoints hnull
    exact ⟨pairs, box, hpairs, hsome, hleast⟩
  · intro region hregionShown
    have hbox : some (numbers box) = some region := hsome.symm.trans hregionShown
    exact ⟨box, (Option.some.inj hbox).symm, hinside⟩

theorem described_of_either {shape : Option String} {a b : String}
    (h : shape = some a ∨ shape = some b) : shape.isSome := by
  rcases h with rfl | rfl
  · rfl
  · rfl

theorem restored_of_accepted (accepted : Accepted kind input)
    (hstored : row.toPosition = annotationPositionData input) :
    Restored input <| publicAnnotation row := by
  cases accepted.drawn with
  | nothing region shape points => exact restored_of_nothing accepted region shape points hstored
  | area box region inside points shape =>
    have hdata := data_of_area region shape
    rw [← points] at hdata
    exact restored_of_box accepted inside (described_of_either shape) hdata (fun _ => region)
      (fun hnull => absurd points hnull) hstored
  | path pairs region points nonempty inside shape =>
    obtain ⟨box, hbox, hinside, hleast⟩ := boundingRegion_pairs nonempty inside
    have hdata := data_of_path points shape hbox
    rw [← points] at hdata
    refine restored_of_box accepted hinside (described_of_either shape) hdata ?_
      (fun _ => ⟨region, pairs, points, hleast⟩) hstored
    intro hnull
    rw [points] at hnull
    cases hnull

/-- Columns of markup are set only for an input that is marked. -/
theorem columns_of_unmarked (accepted : Accepted kind input) (h : input.marked = false) :
    annotationPositionData input =
      ⟨input.timecodeMs, input.pageNumber, .null, .null, .null, .null, none, .null, none⟩ := by
  obtain ⟨hregion, hshape, hpoints⟩ := unmarked_iff.mp h
  exact (data_of_nothing accepted hregion hshape hpoints).2

theorem permitted_of_accepted (accepted : Accepted kind input) :
    Permitted kind input (annotationPositionData input) := by
  refine ⟨?_, ?_, ?_, ?_⟩
  · intro h
    exact accepted.timecode (Option.isSome_iff_ne_none.mpr h)
  · intro h
    exact accepted.page (Option.isSome_iff_ne_none.mpr h)
  · intro h
    cases hmarked : input.marked with
    | true => exact accepted.marked hmarked
    | false =>
      rw [columns_of_unmarked accepted hmarked] at h
      simp at h
  · intro parentId hparent hne
    have hreply : (Js.truthy input.parentId).isSome := by
      rw [hparent, Js.truthy_some hne, Option.isSome_some]
    obtain ⟨htimecode, hmarked, hpage, -⟩ := accepted.reply hreply
    rw [columns_of_unmarked accepted hmarked, htimecode, hpage]

/-- Every input that passes the check is shown as it was given, and sets only what is permitted. -/
theorem annotation_restored (hvalid : annotationPositionError kind input = none)
    (hstored : row.toPosition = annotationPositionData input) :
    (Restored input <| publicAnnotation row) ∧ Permitted kind input row.toPosition := by
  have accepted := accepted_of_error hvalid
  refine ⟨restored_of_accepted accepted hstored, ?_⟩
  rw [hstored]
  exact permitted_of_accepted accepted

/-- A stroke of three points on a frame of a video. -/
def stroke : Input where
  parentId := none
  timecodeMs := some 1500
  pageNumber := none
  region := none
  shape := some "pen"
  points := .array [pair (1 / 2, 1 / 4), pair (1 / 4, 3 / 4), pair (3 / 4, 1 / 2)]
  color := some "green"

def strokeRow : Annotation where
  toPosition := annotationPositionData stroke
  id := "a"
  parentId := none
  authorType := "staff"
  authorName := "Ada"
  body := "Here"
  resolvedAt := none
  createdAt := 0

theorem annotation_restored_stroke : (Restored stroke <| publicAnnotation strokeRow) ∧
    Permitted (some .video) stroke strokeRow.toPosition :=
  annotation_restored (by decide +kernel) rfl

end Ashbi.Annotations
