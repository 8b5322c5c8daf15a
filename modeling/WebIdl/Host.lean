import WebIdl.Json.Value
import WebIdl.Text.Blank

/-!
# Host documents

What a host hands over: blocks of IDL with their attributes, the terms that the author defines in
prose, and the bare references to link. It is plain data and is read from JSON, where a structure
may be an object, whose other members are ignored, or an array of its fields in order.
-/

namespace WebIdl

/-- A block of IDL in a document. -/
structure BlockInput where
  id : Option String
  source : String
  /-- Specifications to prefer for names that are defined elsewhere. -/
  cite : List String
  classes : List String
deriving DecidableEq, Repr

/-- A term that the author defines. -/
structure TermInput where
  text : String
  /-- The container that the term is declared for. -/
  scope : Option String
  id : Option String
  /-- Other forms of the term. -/
  alternates : List String
deriving DecidableEq, Repr

/-- A reference in prose that is to be linked. -/
structure ReferenceInput where
  text : String
  /-- The container to look in. -/
  scope : Option String
deriving DecidableEq, Repr

structure DocumentInput where
  blocks : List BlockInput
  terms : List TermInput
  references : List ReferenceInput
deriving DecidableEq, Repr

/-! ### Building inputs -/

namespace BlockInput

def ofSource (source : String) : BlockInput := ⟨none, source, [], []⟩

def withId (block : BlockInput) (id : String) : BlockInput := { block with id := some id }

def withCite (block : BlockInput) (specs : List String) : BlockInput := { block with cite := specs }

def withClasses (block : BlockInput) (classes : List String) : BlockInput :=
  { block with classes := classes }

end BlockInput

namespace TermInput

def ofText (text : String) : TermInput := ⟨text, none, none, []⟩

def forScope (term : TermInput) (scope : String) : TermInput := { term with scope := some scope }

def withId (term : TermInput) (id : String) : TermInput := { term with id := some id }

def withAlternate (term : TermInput) (alternate : String) : TermInput :=
  { term with alternates := term.alternates ++ [alternate] }

end TermInput

namespace ReferenceInput

def ofText (text : String) : ReferenceInput := ⟨text, none⟩

def linkFor (reference : ReferenceInput) (scope : String) : ReferenceInput :=
  { reference with scope := some scope }

end ReferenceInput

namespace DocumentInput

def empty : DocumentInput := ⟨[], [], []⟩

def block (input : DocumentInput) (b : BlockInput) : DocumentInput :=
  { input with blocks := input.blocks ++ [b] }

def term (input : DocumentInput) (t : TermInput) : DocumentInput :=
  { input with terms := input.terms ++ [t] }

def reference (input : DocumentInput) (r : ReferenceInput) : DocumentInput :=
  { input with references := input.references ++ [r] }

end DocumentInput

/-! ### Reading inputs -/

namespace Json

/-- The values of the fields of a structure, one place for each field, empty where it is missing.
An object must not repeat a field, and an array must not be longer than the fields. -/
def fields? (names : List String) : Json → Option (List (Option Json))
  | .object members => names.mapM fun name =>
    match valuesOf name members with
    | [] => some none
    | [value] => some (some value)
    | _ :: _ :: _ => none
  | .array items =>
    if names.length < items.length then none
    else some ((List.range names.length).map (items[·]?))
  | _ => none

/-- A field that must be there. -/
def required {α : Type} (read : Json → Option α) : Option Json → Option α
  | some value => read value
  | none => none

/-- A field that may be missing. -/
def defaulted {α : Type} (read : Json → Option α) (default : α) : Option Json → Option α
  | some value => read value
  | none => some default

/-- A field that may be missing or null. -/
def optional {α : Type} (read : Json → Option α) : Option Json → Option (Option α)
  | none | some .null => some none
  | some value => (read value).map some

def listOf? {α : Type} (read : Json → Option α) : Json → Option (List α)
  | .array items => items.mapM read
  | _ => none

end Json

namespace BlockInput

def ofJson? (json : Json) : Option BlockInput := do
  match ← json.fields? ["id", "source", "cite", "classes"] with
  | [id, source, cite, classes] =>
    return {
      id := ← Json.optional Json.string? id
      source := ← Json.required Json.string? source
      cite := ← Json.defaulted (Json.listOf? Json.string?) [] cite
      classes := ← Json.defaulted (Json.listOf? Json.string?) [] classes }
  | _ => none

end BlockInput

namespace TermInput

def ofJson? (json : Json) : Option TermInput := do
  match ← json.fields? ["text", "for_scope", "id", "alternates"] with
  | [text, scope, id, alternates] =>
    return {
      text := ← Json.required Json.string? text
      scope := ← Json.optional Json.string? scope
      id := ← Json.optional Json.string? id
      alternates := ← Json.defaulted (Json.listOf? Json.string?) [] alternates }
  | _ => none

end TermInput

namespace ReferenceInput

def ofJson? (json : Json) : Option ReferenceInput := do
  match ← json.fields? ["text", "link_for"] with
  | [text, scope] =>
    return {
      text := ← Json.required Json.string? text
      scope := ← Json.optional Json.string? scope }
  | _ => none

end ReferenceInput

namespace DocumentInput

def ofJson? (json : Json) : Option DocumentInput := do
  match ← json.fields? ["blocks", "terms", "references"] with
  | [blocks, terms, references] =>
    return {
      blocks := ← Json.defaulted (Json.listOf? BlockInput.ofJson?) [] blocks
      terms := ← Json.defaulted (Json.listOf? TermInput.ofJson?) [] terms
      references := ← Json.defaulted (Json.listOf? ReferenceInput.ofJson?) [] references }
  | _ => none

end DocumentInput

/-! ### Raw blocks -/

namespace Text

def isIndent (c : Char) : Bool := c == ' ' || c == '\t'

/-- The lines from the first that is not blank to the last. -/
def dropBlankEnds (ls : List (List Char)) : List (List Char) :=
  ((ls.dropWhile allBlank).reverse.dropWhile allBlank).reverse

/-- The number of blanks and tabs that every line starts with, blank lines apart. -/
def commonIndent (ls : List (List Char)) : Nat :=
  (((ls.filter (!allBlank ·)).map fun l => (l.takeWhile isIndent).length).min?).getD 0

/-- A line without its end and its first `indent` characters. A shorter line is left empty. -/
def dedentLine (indent : Nat) (l : List Char) : List Char := (trimEnd l).drop indent

/-- The text of a raw block as it is shown: blank lines at both ends dropped, blanks at the ends of
lines dropped, and the common indentation removed. -/
def normalizeBlock (raw : String) : String :=
  let body := dropBlankEnds (lines raw.toList)
  "\n".intercalate (body.map fun l => String.ofList (dedentLine (commonIndent body) l))

end Text

end WebIdl
