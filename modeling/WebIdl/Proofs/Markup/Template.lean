import WebIdl.Proofs.Markup.Names

/-!
# Markup with holes

Where a name leads that is resolved as a type decides how the name is marked up. A template is markup
with holes for such names, and is filled once it is known where they lead.

* `Template`, `Template.fillAll` — markup with holes, and how they are filled.
* `Template.holesAll` — the holes in their order.
* `Template.settleAll` — what is left of a template once some of the names are known; the holes that
  are left are those for the others (`Template.holesAll_settle`), and it is filled to the same
  markup (`Template.fillAll_settle`).
* `Template.fillAll_congr` — answers that agree on the names of the holes fill them alike.
-/

namespace WebIdl

namespace Rendering

/-! ### Templates -/

/-- What a name that is resolved as a type is marked up as. -/
inductive Hole.Kind where
  /-- A name that may be a link. -/
  | reference
  /-- The name of what is inherited from. -/
  | superclass
  /-- The name of what a partial definition extends. -/
  | extension
deriving DecidableEq, Repr

/-- A name whose markup depends on where it leads, and its text in the source. -/
structure Hole where
  kind : Hole.Kind
  name : String
  text : String
deriving DecidableEq, Repr

/-- The markup of a name that leads to a target, or nowhere. -/
def Hole.fill (hole : Hole) (target : Option Target) : Markup :=
  match hole.kind, target with
  | .reference, target => linked target hole.text
  | .superclass, some target => .label (linkHead target (some "idlSuperclass")) hole.text
  | .superclass, none => .label (.span "idlSuperclass") hole.text
  | .extension, some target =>
    .label (((linkHead target (some "idlID")).setAttr "data-idl" IdlKind.extension.name).setAttr
      "data-title" hole.name) hole.text
  | .extension, none =>
    .label (((StartTag.span "idlID").addClass offendingClass).setAttr "title"
      ("No definition found for partial `" ++ hole.name ++ "`")) hole.text

/-- Markup with holes. -/
inductive Template where
  | fixed (node : Markup)
  | wrap (head : StartTag) (parts : List Template)
  | hole (h : Hole)

namespace Template

mutual

/-- The markup in which every hole leads to the answer for its name. -/
def fill (answer : String → Option Target) : Template → Markup
  | .fixed node => node
  | .wrap head parts => .wrap head (fillAll answer parts)
  | .hole h => h.fill (answer h.name)

/-- The markup of templates in a row. -/
def fillAll (answer : String → Option Target) : List Template → List Markup
  | [] => []
  | part :: parts => fill answer part :: fillAll answer parts

end

mutual

/-- The holes in their order. -/
def holes : Template → List Hole
  | .fixed _ => []
  | .wrap _ parts => holesAll parts
  | .hole h => [h]

/-- The holes of templates in a row. -/
def holesAll : List Template → List Hole
  | [] => []
  | part :: parts => holes part ++ holesAll parts

end

variable {answer : String → Option Target}

@[simp] theorem fillAll_append (xs ys : List Template) :
    fillAll answer (xs ++ ys) = fillAll answer xs ++ fillAll answer ys := by
  induction xs with
  | nil => simp [fillAll]
  | cons x xs ih => simp [fillAll, ih]

@[simp] theorem holesAll_append (xs ys : List Template) :
    holesAll (xs ++ ys) = holesAll xs ++ holesAll ys := by
  induction xs with
  | nil => simp [holesAll]
  | cons x xs ih => simp [holesAll, ih]

theorem fillAll_fixed (nodes : List Markup) : fillAll answer (nodes.map .fixed) = nodes := by
  induction nodes with
  | nil => simp [fillAll]
  | cons node nodes ih => simp [fillAll, fill, ih]

theorem holesAll_fixed (nodes : List Markup) : holesAll (nodes.map .fixed) = [] := by
  induction nodes with
  | nil => simp [holesAll]
  | cons node nodes ih => simp [holesAll, holes, ih]

/-! ### Holes whose answers are known -/

mutual

/-- The template with the holes for known names filled. -/
def settle (known : String → Option Target) : Template → Template
  | .fixed node => .fixed node
  | .wrap head parts => .wrap head (settleAll known parts)
  | .hole h =>
    match known h.name with
    | some target => .fixed (h.fill target)
    | none => .hole h

/-- The same for templates in a row. -/
def settleAll (known : String → Option Target) : List Template → List Template
  | [] => []
  | part :: parts => settle known part :: settleAll known parts

end

variable (known : String → Option Target)

mutual

theorem fill_settle (part : Template) :
    fill answer (settle known part) = fill (fun name => (known name).or (answer name)) part := by
  match part with
  | .fixed node => simp only [settle, fill]
  | .wrap head parts => simp only [settle, fill, fillAll_settle parts]
  | .hole h => cases hname : known h.name <;> simp [settle, fill, hname]

/-- A name that is not known leads to its answer. -/
theorem fillAll_settle (parts : List Template) :
    fillAll answer (settleAll known parts) =
      fillAll (fun name => (known name).or (answer name)) parts := by
  match parts with
  | [] => simp only [settleAll, fillAll]
  | part :: parts => simp only [settleAll, fillAll, fill_settle part, fillAll_settle parts]

end

mutual

theorem holes_settle (part : Template) :
    holes (settle known part) = (holes part).filter fun h => (known h.name).isNone := by
  match part with
  | .fixed node => simp [settle, holes]
  | .wrap head parts => simp only [settle, holes, holesAll_settle parts]
  | .hole h => cases hname : known h.name <;> simp [settle, holes, hname]

/-- The holes that are left are those for the names that are not known. -/
theorem holesAll_settle (parts : List Template) :
    holesAll (settleAll known parts) =
      (holesAll parts).filter fun h => (known h.name).isNone := by
  match parts with
  | [] => simp [settleAll, holesAll]
  | part :: parts =>
    simp only [settleAll, holesAll, holes_settle part, holesAll_settle parts, List.filter_append]

end

/-! ### Holes that are filled alike -/

variable {answer' : String → Option Target}

mutual

theorem fill_congr (part : Template)
    (h : ∀ name ∈ (holes part).map Hole.name, answer name = answer' name) :
    fill answer part = fill answer' part := by
  match part with
  | .fixed node => simp only [fill]
  | .wrap head parts =>
    simp only [holes] at h
    simp only [fill, fillAll_congr parts h]
  | .hole place => simp only [fill, h place.name (by simp [holes])]

/-- Only the answers for the names of the holes matter. -/
theorem fillAll_congr (parts : List Template)
    (h : ∀ name ∈ (holesAll parts).map Hole.name, answer name = answer' name) :
    fillAll answer parts = fillAll answer' parts := by
  match parts with
  | [] => simp only [fillAll]
  | part :: parts =>
    simp only [holesAll, List.map_append, List.mem_append] at h
    rw [fillAll, fillAll, fill_congr part fun name hname => h name (.inl hname),
      fillAll_congr parts fun name hname => h name (.inr hname)]

end

end Template

end Rendering

end WebIdl
