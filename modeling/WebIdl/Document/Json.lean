import WebIdl.Document.Basic
import WebIdl.Json.Writer

/-!
# Documents as JSON

A built document and its parts as JSON objects, with the members of every object in one order.
-/

namespace WebIdl

/-! ### Diagnostics -/

namespace Text

def Span.toJson (span : Span) : Json :=
  .object [("start", .ofNat span.start), ("end", .ofNat span.stop)]

def Position.toJson (position : Position) : Json :=
  .object [("line", .ofNat position.line), ("column", .ofNat position.column)]

def Range.toJson (range : Range) : Json :=
  .object [("span", range.span.toJson), ("start", range.start.toJson), ("end", range.stop.toJson)]

end Text

def Diagnostic.toJson (diagnostic : Diagnostic) : Json :=
  .object [
    ("range", .ofOption Text.Range.toJson diagnostic.range),
    ("severity", .string diagnostic.severity.name),
    ("message", .string diagnostic.message),
    ("code", .ofOption .string diagnostic.code),
    ("member", .ofOption .string diagnostic.member),
    ("source", .string diagnostic.source)]

/-! ### Markup -/

/-- An attribute as a pair. -/
def StartTag.attributeToJson (a : String × String) : Json := .array [.string a.1, .string a.2]

namespace Markup

mutual

/-- Texts are strings. -/
def toJson : Markup → Json
  | .text s => .string s
  | .element head children =>
    .object [
      ("tag", .string head.tag.name),
      ("classes", .ofList .string head.classes),
      ("attrs", .ofList StartTag.attributeToJson head.attributes),
      ("children", .array (toJsonList children))]

def toJsonList : List Markup → List Json
  | [] => []
  | node :: nodes => toJson node :: toJsonList nodes

end

end Markup

def Element.toJson (element : Element) : Json := element.markup.toJson

/-! ### Terms, references and exports -/

def Designation.toJson (designation : Designation) : Json :=
  .object [
    ("text", .string designation.text),
    ("id", .string designation.id),
    ("dfn_type", .ofOption (.string ·.name) designation.dfnType),
    ("for_scope", .ofOption .string designation.scope),
    ("idl", .ofOption (.string ·.name) designation.idl),
    ("export", .bool designation.exported)]

def Target.toJson (target : Target) : Json :=
  .object [
    ("origin", .string target.origin.name),
    ("href", .string target.href),
    ("link_type", .string target.linkType)]

def LinkedReference.toJson (reference : LinkedReference) : Json :=
  .object [
    ("text", .string reference.text),
    ("link_for", .ofOption .string reference.scope),
    ("target", .ofOption Target.toJson reference.target)]

/-- The container is left out where there is none. -/
def ExportedTerm.toJson (term : ExportedTerm) : Json :=
  .object (("name", .string term.name)
    :: (term.scope.toList.map fun scope => ("for", Json.string scope))
    ++ [("type", .string term.type.name), ("id", .string term.id)])

/-! ### Documents -/

def RenderedBlock.toJson (block : RenderedBlock) (index : Nat) : Json :=
  .object [
    ("block", .ofNat index),
    ("id", .ofOption .string block.id),
    ("markup", block.markup.toJson),
    ("html", .string block.html),
    ("verdict", .ofOption Diagnostic.toJson block.verdict),
    ("diagnostics", .ofList Diagnostic.toJson block.diagnostics)]

namespace Document

def toJson (document : Document) : Json :=
  .object [
    ("blocks", .array (document.blocks.zipIdx.map fun (block, index) => block.toJson index)),
    ("terms", .ofList Designation.toJson document.terms),
    ("references", .ofList LinkedReference.toJson document.references),
    ("exports", .ofList ExportedTerm.toJson document.exports),
    ("warnings", .ofList Diagnostic.toJson document.warnings)]

/-- The document as text over several lines. -/
def jsonText (document : Document) : String := document.toJson.pretty

end Document

end WebIdl
