import WebIdl.Proofs.Block.RoundTrip
import WebIdl.Proofs.Document.Build
import WebIdl.Proofs.Markup.Text

/-!
# Building keeps the text of a document

* `Markup.cut` — the nodes of a block, cut after each element around a definition.
* `Rendering.cut_block` — the pieces of a rendered block are its definitions in order, each with
  its leading trivia before its element.
* `Document.build_text` — the markup of every block of a document has the text of its source, and
  its pieces are the definitions that were read from it, whatever the terms, the settings and the
  answers of the provider.
-/

namespace WebIdl

/-! ### Definitions in markup -/

/-- A definition in the markup of a block: the text before its element, and the classes and the
text of the element. -/
structure Piece where
  before : String
  classes : List String
  text : String
deriving DecidableEq, Repr

/-- What a definition should be in markup: nothing but its leading trivia is before its element. -/
def Definition.piece (d : Definition) : Piece := ⟨d.leadingTrivia, [d.kind.cssClass], d.sourceText⟩

/-- The classes of elements around definitions. -/
def definitionClasses : List String :=
  ["idlInterface", "idlNamespace", "idlDictionary", "idlEnum", "idlTypedef", "idlCallback",
    "idlIncludes"]

def StartTag.isDefinition (head : StartTag) : Bool := definitionClasses.any head.hasClass

namespace Markup

/-- Adds a text in front of pieces, or of what is left after them. -/
def prepend (s : String) : List Piece × String → List Piece × String
  | ([], after) => ([], s ++ after)
  | (piece :: pieces, after) => ({ piece with before := s ++ piece.before } :: pieces, after)

/-- Nodes in a row, cut after each element around a definition: the pieces, and the text after the
last of them. Other elements count as text. -/
def cut : List Markup → List Piece × String
  | [] => ([], "")
  | .text s :: nodes => prepend s (cut nodes)
  | .element head children :: nodes =>
    if head.isDefinition then
      (⟨"", head.classes, textContents children⟩ :: (cut nodes).1, (cut nodes).2)
    else prepend (textContents children) (cut nodes)

theorem prepend_empty (pieces : List Piece × String) : prepend "" pieces = pieces := by
  obtain ⟨_ | ⟨piece, pieces⟩, after⟩ := pieces <;> simp [prepend]

theorem prepend_append (s t : String) (pieces : List Piece × String) :
    prepend (s ++ t) pieces = prepend s (prepend t pieces) := by
  obtain ⟨_ | ⟨piece, pieces⟩, after⟩ := pieces <;> simp [prepend, String.append_assoc]

/-- Joining texts that meet moves no text over an element. -/
theorem cut_join (nodes : List Markup) : cut (join nodes) = cut nodes := by
  induction nodes with
  | nil => rfl
  | cons node nodes ih =>
    cases node with
    | element head children => simp only [join, cut, ih]
    | text s =>
      unfold join
      split
      · rename_i hempty
        obtain rfl : s = "" := by simpa using hempty
        rw [ih, cut, prepend_empty]
      · split
        · rename_i t rest hrest
          rw [hrest] at ih
          rw [cut, cut, ← ih, cut, prepend_append]
        · rw [cut, cut, ih]

theorem text_prepend (s : String) (pieces : List Piece × String) :
    String.join ((prepend s pieces).1.map fun p => p.before ++ p.text) ++ (prepend s pieces).2 =
      s ++ (String.join (pieces.1.map fun p => p.before ++ p.text) ++ pieces.2) := by
  obtain ⟨_ | ⟨piece, pieces⟩, after⟩ := pieces
  · simp [prepend]
  · simp [prepend, String.append_assoc]

/-- Cutting loses no text. -/
theorem textContents_eq_cut (nodes : List Markup) :
    textContents nodes =
      String.join ((cut nodes).1.map fun p => p.before ++ p.text) ++ (cut nodes).2 := by
  induction nodes with
  | nil => rfl
  | cons node nodes ih =>
    cases node with
    | text s => rw [cut, text_prepend, textContents_cons, textContent_text, ih]
    | element head children =>
      unfold cut
      split
      · simp [ih, String.append_assoc]
      · rw [text_prepend, textContents_cons, textContent_element, ih]

end Markup

namespace Rendering

open Markup

theorem cut_trivia_append (s : String) (nodes : List Markup) :
    cut (trivia s ++ nodes) = prepend s (cut nodes) := by
  unfold trivia
  split
  · rename_i hempty
    obtain rfl : s = "" := by simpa using hempty
    rw [List.nil_append, prepend_empty]
  · split
    · have hcomment : (StartTag.span "idlSectionComment").isDefinition = false := by decide
      simp [label, wrap, cut, hcomment]
    · rfl

variable (rendering : Rendering)

/-! ### The element around a definition -/

theorem classes_definitionHead (d : Definition) (place : Place) :
    (rendering.definitionHead d place).classes = [d.kind.cssClass] := by
  unfold definitionHead
  split
  · rfl
  · split <;> rfl

theorem isDefinition_definitionHead (d : Definition) (place : Place) :
    (rendering.definitionHead d place).isDefinition = true := by
  unfold StartTag.isDefinition StartTag.hasClass
  rw [rendering.classes_definitionHead]
  cases d.kind <;> decide

theorem cut_definition_append {d : Definition} (place : Place) (h : ∀ m ∈ d.members, m.IsPlain)
    (nodes : List Markup) :
    cut (rendering.definition d place ++ nodes) = (d.piece :: (cut nodes).1, (cut nodes).2) := by
  have htext := rendering.textContent_definitionElement place (d := d.bare) (by simpa using h)
  rw [d.written_tokens_bare, definitionElement, textContent_wrap] at htext
  rw [definition, List.append_assoc, List.singleton_append, cut_trivia_append, definitionElement,
    wrap, cut, if_pos (rendering.isDefinition_definitionHead ..), textContents_join, htext,
    rendering.classes_definitionHead, d.kind_bare]
  simp [prepend, Definition.piece]

/-! ### Blocks -/

theorem cut_definitions_append (index : Nat) {definitions : List Definition}
    (h : ∀ d ∈ definitions, ∀ m ∈ d.members, m.IsPlain) (nodes : List Markup) (start : Nat) :
    cut ((definitions.zipIdx start).flatMap (fun entry =>
      rendering.definition entry.1 ⟨index, entry.2⟩) ++ nodes) =
        (definitions.map Definition.piece ++ (cut nodes).1, (cut nodes).2) := by
  induction definitions generalizing start with
  | nil => rfl
  | cons d definitions ih =>
    have ih := ih (fun d hd => h d (List.mem_cons_of_mem _ hd)) (start + 1)
    rw [List.zipIdx_cons, List.flatMap_cons, List.append_assoc,
      rendering.cut_definition_append _ (h d List.mem_cons_self), ih, List.map_cons,
      List.cons_append]

/-- The pieces of a block are its definitions in order; what comes after them is what trails the
last, or what could not be read. -/
theorem cut_block {block : Block} (h : ∀ d ∈ block.definitions, ∀ m ∈ d.members, m.IsPlain)
    (index : Nat) :
    cut (rendering.block block index).children =
      (block.definitions.map Definition.piece, block.remainder.getD block.trailing) := by
  have hrest : cut (block.remainder.elim (trivia block.trailing) fun r => [.text r]) =
      ([], block.remainder.getD block.trailing) := by
    cases block.remainder with
    | none => simpa [prepend, cut] using cut_trivia_append block.trailing []
    | some r => simp [prepend, cut]
  rw [Rendering.block, cut_join]
  simpa [hrest] using rendering.cut_definitions_append index h
    (block.remainder.elim (trivia block.trailing) fun r => [.text r]) 0

theorem textContent_block {block : Block}
    (h : ∀ d ∈ block.definitions, ∀ m ∈ d.members, m.IsPlain) (index : Nat) :
    (rendering.block block index).textContent = block.source := by
  have hdefinitions (definitions : List Definition) :
      String.join (definitions.map fun d => d.leadingTrivia ++ d.sourceText) =
        written (definitions.flatMap (·.tokens)) := by
    induction definitions with
    | nil => rfl
    | cons d definitions ih => simp [ih, d.written_tokens]
  rw [Element.textContent, textContents_eq_cut, rendering.cut_block h, List.map_map, Block.source,
    ← hdefinitions]
  rfl

end Rendering

/-! ### Built documents -/

theorem Block.isPlain_parse {source : String} {scope : Option String} {d : Definition}
    (hd : d ∈ (parse source scope).definitions) : ∀ m ∈ d.members, m.IsPlain := by
  rintro m hm value separator hform
  have hfits := membersFit_parse hd m hm
  obtain ⟨henum, hstring⟩ : d.kind = .enum ∧ value.kind = .string := by
    simpa [Member.Form.Allowed, hform] using hfits.allowed
  have hvalue : value ∈ d.tokens := by
    have hmember : value ∈ m.tokens := by simp [Member.tokens, Member.Form.tokens, hform]
    exact Definition.mem_tokens_of_mem_members hm hmember
  exact ⟨TokenStream.isQuoted_of_mem (mem_tokens_of_mem_parse hd hvalue) hstring,
    hfits.attrs_eq_none henum⟩

namespace Document

theorem text_renderBlock (resolver : Resolver) (plan : Anchor.Plan) (report : Lint.Report)
    (input : BlockInput) (index : Nat) :
    let parsed := Block.parse input.source input.id
    let markup := (renderBlock resolver plan report input parsed index).markup
    markup.textContent = input.source ∧
      Markup.cut markup.children =
        (parsed.definitions.map Definition.piece, parsed.remainder.getD parsed.trailing) := by
  intro parsed markup
  have hplain : ∀ d ∈ parsed.definitions, ∀ m ∈ d.members, m.IsPlain :=
    fun d hd => Block.isPlain_parse hd
  have hchildren := children_renderBlock resolver plan report input parsed index
  obtain ⟨rest, hrun, hstopped⟩ := Block.completed_parse input.source input.id
  constructor
  · calc markup.textContent
        = (Rendering.block _ parsed index).textContent := congrArg Markup.textContents hchildren
      _ = parsed.source := Rendering.textContent_block _ hplain index
      _ = input.source := Block.source_eq_of_completed hrun hstopped
  · rw [hchildren]
    exact Rendering.cut_block _ hplain index

/-- The markup of every block has the text of its source, and the definitions of the block stand in
it one by one, with the text before each outside of its element. -/
theorem build_text (settings : Settings) (provider : Option Xref.Provider) (input : DocumentInput) :
    (build settings provider input).blocks.map (fun block =>
        (block.markup.textContent, Markup.cut block.markup.children)) =
      input.blocks.map fun block =>
        let parsed := Block.parse block.source block.id
        (block.source, parsed.definitions.map Definition.piece,
          parsed.remainder.getD parsed.trailing) := by
  rw [blocks_build]
  refine List.ext_getElem? fun index => ?_
  simp only [List.getElem?_map, List.getElem?_zipIdx, Nat.zero_add]
  cases input.blocks[index]? with
  | none => rfl
  | some block =>
    obtain ⟨htext, hcut⟩ := text_renderBlock (resolver settings provider input) (plan input)
      (report settings provider input) block index
    exact congrArg some (Prod.ext htext hcut)

end Document

end WebIdl
