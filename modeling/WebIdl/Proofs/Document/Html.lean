import WebIdl.Proofs.Document.External
import WebIdl.Proofs.Markup.StartTags

/-!
# The HTML of a document

The markup of a block is written as HTML that says the same: a reader finds the elements again, with
their classes, their attributes and the text between them, whatever the source, the terms and the
messages are that have gone into it.

* `Element.Normal` — nothing in an element is said twice, and its texts are joined.
* `Document.html_faithful` — what is rendered and what is built is normal and is read back, and
  without its tags the HTML of a block is its source.
-/

namespace WebIdl

open Markup

/-- The classes of an element are distinct, and so are the names of its attributes, that of the
classes among them; no text in it is empty, and no two are in a row. -/
structure Element.Normal (element : Element) : Prop where
  classes : element.head.classes.Nodup
  names : ((Html.attributes element.head).map (·.1)).Nodup
  settled : Settled element.children

/-- The start tag of the element is sound, and all that is inside it is written by rendering. -/
structure Element.Tidy (element : Element) : Prop where
  head : element.head.Sound
  settled : Settled element.children
  inside : Made StartTag.Written element.children

theorem Element.settled_markup (element : Element) : Settled [element.markup] :=
  settled_nil.element_cons element.head element.children

namespace Element.Tidy

variable {element : Element} (h : element.Tidy)

include h

theorem normal : ∀ e ∈ element.markup.elements, e.Normal := by
  intro e he
  rw [Element.markup, elements] at he
  rcases List.mem_cons.mp he with rfl | he
  · exact ⟨h.head.classes_nodup, h.head.nodup_attributes, h.settled⟩
  · obtain ⟨hwritten, hsettled⟩ := h.inside e he
    exact ⟨hwritten.classes_nodup, hwritten.nodup_attributes, hsettled⟩

theorem read?_html (hclassed : Html.Classed element.head) :
    Html.read? element.html = some [element.markup] := by
  have hinside : Html.Legible element.children :=
    h.inside.mono fun head hhead => ⟨hhead.keyed, hhead.classed⟩
  have hlegible : Html.Legible [element.markup] :=
    made_element_cons.mpr ⟨⟨⟨h.head.keyed, hclassed⟩, h.settled⟩, hinside, made_nil⟩
  have hread := Html.read?_htmlOf element.settled_markup hlegible
  rwa [htmlOf, htmlOf, String.append_empty] at hread

theorem text?_html : Html.text? element.html = some element.textContent := by
  have hinside : Made Html.Keyed element.children := h.inside.mono fun head hhead => hhead.keyed
  have hapart : Html.Apart [element.markup] :=
    ⟨element.settled_markup, made_element_cons.mpr ⟨⟨h.head.keyed, h.settled⟩, hinside, made_nil⟩⟩
  have htext := Html.text?_htmlOf hapart
  rw [htmlOf, htmlOf, String.append_empty] at htext
  rw [Element.html, htext, textContents_cons, textContents_nil, String.append_empty,
    Element.markup, textContent_element, Element.textContent]

end Element.Tidy

namespace Rendering

variable (rendering : Rendering) (block : Block) (index : Nat)

theorem written_block : (rendering.block block index).head.Written :=
  (StartTag.written_ofTag .pre).addClass "idl" (by decide)

theorem tidy_block : (rendering.block block index).Tidy where
  head := (rendering.written_block block index).toSound
  settled := settled_join _
  inside := rendering.made_written block index

end Rendering

namespace Document

/-- The start tag of a block says nothing twice, whatever the host and the checks add to it. -/
theorem sound_blockHead (i : BlockInput) (verdict : Option Diagnostic) :
    (blockHead i verdict).Sound := by
  have hclasses (classes : List String) {head : StartTag} (h : head.Sound) :
      (classes.foldl StartTag.addClass head).Sound := by
    induction classes generalizing head with
    | nil => exact h
    | cons c classes ih => exact ih (h.addClass c)
  have hstart := hclasses i.classes ((StartTag.written_ofTag .pre).toSound.addClass "idl")
  have hid : (i.id.elim (i.classes.foldl .addClass ((StartTag.ofTag .pre).addClass "idl"))
      ((i.classes.foldl .addClass ((StartTag.ofTag .pre).addClass "idl")).setAttr "id")).Sound := by
    cases i.id with
    | none => exact hstart
    | some id => exact hstart.setAttr "id" id (by decide)
  unfold blockHead
  cases verdict with
  | none => exact hid
  | some d => exact (hid.addClass Rendering.offendingClass).setAttr "title" d.message (by decide)

variable (settings : Settings) (provider : Option Xref.Provider) (input : DocumentInput)

theorem tidy_renderBlock (i : BlockInput) (index : Nat) :
    (renderBlock (resolver settings provider input) (plan input) (report settings provider input) i
      (Block.parse i.source i.id) index).markup.Tidy := by
  have hblock := (rendering settings provider input i).tidy_block (Block.parse i.source i.id) index
  have hmarkup := (markup_renderBlock settings input provider i index).trans (dress_mk i _ _)
  rw [hmarkup]
  exact ⟨sound_blockHead i _, hblock.settled, hblock.inside⟩

/-- **HTML is faithful.** No element that is rendered or built says anything twice or has texts that
are empty or meet. What is written of it is read back as it was, of a built block if the classes that
the host gave it are names of classes, and without its tags the HTML of a built block is the source
of the block. -/
theorem html_faithful :
    (∀ (rendering : Rendering) (block : Block) (index : Nat),
      (∀ e ∈ (rendering.block block index).markup.elements, e.Normal) ∧
        Html.read? (rendering.block block index).html =
          some [(rendering.block block index).markup]) ∧
      ∀ (settings : Settings) (provider : Option Xref.Provider) (input : DocumentInput)
        (index : Nat) (i : BlockInput) (built : RenderedBlock),
        input.blocks[index]? = some i → (build settings provider input).blocks[index]? = some built →
        (∀ e ∈ built.markup.markup.elements, e.Normal) ∧
          ((∀ c ∈ built.markup.head.classes, Html.IsClassName c) →
            Html.read? built.html = some [built.markup.markup]) ∧
          Html.text? built.html = some i.source := by
  constructor
  · intro rendering block index
    have htidy := rendering.tidy_block block index
    exact ⟨htidy.normal, htidy.read?_html (rendering.written_block block index).classed⟩
  · intro settings provider input index i built hi hbuilt
    rw [getElem?_blocks_build settings input hi provider] at hbuilt
    obtain rfl := Option.some.inj hbuilt
    have htidy := tidy_renderBlock settings provider input i index
    obtain ⟨htext, -⟩ := text_renderBlock (resolver settings provider input) (plan input)
      (report settings provider input) i index
    exact ⟨htidy.normal, htidy.read?_html, htidy.text?_html.trans (congrArg some htext)⟩

/-- An enumeration with a value that looks like a tag. -/
def disguised : BlockInput :=
  ⟨some "a\"b", "enum E \x7b \"</pre><b class='x'>&amp;\" \x7d;", [], ["wide", "idl"]⟩

/-- The value is read back as text, and the id as it was. -/
theorem html_faithful_disguised :
    ∃ built, (build silent none (.block .empty disguised)).blocks[0]? = some built ∧
      built.markup.head.attr? "id" = some "a\"b" ∧ built.markup.head.classes = ["idl", "wide"] ∧
      Html.read? built.html = some [built.markup.markup] ∧
      Html.text? built.html = some disguised.source := by
  have hhead : (build silent none (.block .empty disguised)).blocks[0]?.map
      (fun built => (built.markup.head.attr? "id", built.markup.head.classes)) =
        some (some "a\"b", ["idl", "wide"]) := by
    decide +kernel
  obtain ⟨built, hbuilt, hfacts⟩ := Option.map_eq_some_iff.mp hhead
  obtain ⟨hid, hclasses⟩ := Prod.mk.inj hfacts
  obtain ⟨-, hread, htext⟩ :=
    html_faithful.2 silent none (.block .empty disguised) 0 disguised built rfl hbuilt
  have hnames : ∀ c ∈ built.markup.head.classes, Html.IsClassName c := by
    rw [hclasses]
    decide
  exact ⟨built, hbuilt, hid, hclasses, hread hnames, htext⟩

end Document

end WebIdl
