import WebIdl.Dfn.Export
import WebIdl.Link.Prose
import WebIdl.Link.Wanted
import WebIdl.Lint.Report
import WebIdl.Markup.Html
import WebIdl.Markup.Render
import WebIdl.Settings.Basic
import WebIdl.Xref.Prefetch

/-!
# Documents

All blocks of a document are read and catalogued together. What nothing in the document defines is
looked up, then every block is rendered and checked, and the references in prose are linked. An
error in one block does not stop the others.
-/

namespace WebIdl

structure RenderedBlock where
  /-- The id that the host gave the block. -/
  id : Option String
  markup : Element
  /-- What is wrong with the block, if anything is. -/
  verdict : Option Diagnostic
  /-- What was reported when the block was read. -/
  diagnostics : List Diagnostic

structure Document where
  blocks : List RenderedBlock
  /-- What the host is told about its terms, one by one. -/
  terms : List Designation
  references : List LinkedReference
  exports : List ExportedTerm
  warnings : List Diagnostic

namespace RenderedBlock

def html (block : RenderedBlock) : String := block.markup.html

def isOffending (block : RenderedBlock) : Bool := block.verdict.isSome

end RenderedBlock

namespace Document

/-! ### Reading and looking up -/

def readBlocks (input : DocumentInput) : List Block :=
  input.blocks.map fun block => Block.parse block.source block.id

/-- What names resolve to without the answers to any query. -/
def localResolver (settings : Settings) (input : DocumentInput) (blocks : List Block) : Resolver :=
  let definitions := blocks.map (·.definitions)
  let index := TermIndex.ofTerms input.terms
  { catalog := Catalog.ofBlocks definitions
    index := index
    claims := Claims.build input.terms index definitions (Anchor.Plan.ofBlocks definitions)
    xref := .empty
    baseUrl := settings.baseUrl
    cite := [] }

/-- The queries of a block that cites `cite`: the types it names that only a lookup resolves. -/
def blockQueries (resolver : Resolver) (cite : List String) (block : Block) : List Xref.Query :=
  ((block.definitions.flatMap (·.wanted)).filter resolver.needsLookup).map (⟨·, .type, cite⟩)

/-- The query of a reference without a container that only a lookup resolves. -/
def referenceQuery? (resolver : Resolver) (reference : ReferenceInput) : Option Xref.Query :=
  match Dfn.referenceKey reference.text reference.scope with
  | ⟨none, name⟩ => if resolver.needsLookup name then some ⟨name, .type, []⟩ else none
  | ⟨some _, _⟩ => none

/-- All queries of a document, those of its blocks first. -/
def queries (resolver : Resolver) (input : DocumentInput) (blocks : List Block) :
    List Xref.Query :=
  (input.blocks.zip blocks).flatMap (fun (i, block) => blockQueries resolver i.cite block)
    ++ input.references.filterMap (referenceQuery? resolver)

/-- The answers to the queries of a document; there are none if it must not ask. -/
def lookUp (settings : Settings) (provider : Option Xref.Provider) (resolver : Resolver)
    (input : DocumentInput) (blocks : List Block) : Xref.Table :=
  match provider with
  | some provider =>
    if settings.xrefEnabled then
      Xref.prefetch provider (queries resolver input blocks) settings.limit
    else .empty
  | none => .empty

/-! ### Rendering -/

/-- The markup of a block with the classes and the id that the host gave it. -/
def dress (input : BlockInput) (markup : Element) : Element :=
  let markup := input.classes.foldl .addClass markup
  match input.id with
  | some id => markup.setAttr "id" id
  | none => markup

/-- Marks the markup of a block in which something is wrong. -/
def markOffending (verdict : Option Diagnostic) (markup : Element) : Element :=
  match verdict with
  | some d => (markup.addClass Rendering.offendingClass).setAttr "title" d.message
  | none => markup

def renderBlock (resolver : Resolver) (plan : Anchor.Plan) (report : Lint.Report)
    (input : BlockInput) (block : Block) (index : Nat) : RenderedBlock :=
  let rendering : Rendering := ⟨resolver.withCite input.cite, plan, resolver.claims⟩
  let verdict := report.verdict? index
  { id := input.id
    markup := markOffending verdict (dress input (rendering.block block index))
    verdict := verdict
    diagnostics := block.diagnostics }

/-! ### Warnings -/

def ambiguityWarning (query : Xref.Query) (entries : List Xref.Entry) : Diagnostic :=
  { Diagnostic.ofMessage .warning
      ("`" ++ query.term ++ "` is defined by several specifications ("
        ++ ", ".intercalate (entries.map (·.url)) ++ "). Add a citation hint to pick one.") with
    code := some "xref-ambiguous", source := Diagnostic.engineSource }

def unresolvedWarning (reference : LinkedReference) : Diagnostic :=
  { Diagnostic.ofMessage .warning
      ("Could not find a definition for `" ++ reference.text ++ "`.") with
    code := some "unresolved-reference", source := Diagnostic.engineSource }

def unresolvedWarnings (references : List LinkedReference) : List Diagnostic :=
  (references.filter (·.target.isNone)).map unresolvedWarning

/-! ### Building -/

def build (settings : Settings) (provider : Option Xref.Provider) (input : DocumentInput) :
    Document :=
  let blocks := readBlocks input
  let definitions := blocks.map (·.definitions)
  let plan := Anchor.Plan.ofBlocks definitions
  let here := localResolver settings input blocks
  let resolver := { here with xref := lookUp settings provider here input blocks }
  let cites := input.blocks.map (·.cite)
  let report := Lint.check resolver.catalog blocks settings.checks fun block name =>
    ((resolver.withCite ((cites[block]?).getD [])).type? name).isSome
  let references := input.references.map resolver.linkReference
  { blocks := (input.blocks.zip blocks).zipIdx.map fun ((i, block), index) =>
      renderBlock resolver plan report i block index
    terms := resolver.claims.designations
    references := references
    exports := ExportedTerm.all definitions plan resolver.claims
    warnings := report.warnings
      ++ resolver.xref.ambiguities.map (fun (query, entries) => ambiguityWarning query entries)
      ++ unresolvedWarnings references }

def isValid (document : Document) : Bool := document.blocks.all (!·.isOffending)

end Document

end WebIdl
