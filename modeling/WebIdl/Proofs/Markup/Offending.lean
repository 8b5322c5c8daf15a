import WebIdl.Proofs.Markup.Dfns
import WebIdl.Proofs.Markup.Elements
import WebIdl.Proofs.Markup.Text

/-!
# Names that are marked as offending

The name of a partial definition that resolves to nothing is put in an element of a class of its own.
No other element of a rendered block has that class.

* `Markup.offendingNames` — the names in such elements, in order.
* `Rendering.unresolved` — the partial definitions whose names resolve to nothing.
* `Rendering.offendingNames_block` — the names that are marked in a block are the names of these.
-/

namespace WebIdl

open Markup

namespace StartTag

/-- The start of the element around a name that nothing defines. -/
def isOffendingName (head : StartTag) : Bool :=
  head.tag == .span && head.hasClass "idlID" && head.hasClass Rendering.offendingClass

theorem isOffendingName_of_tag {head : StartTag} (h : head.tag ≠ .span) :
    head.isOffendingName = false := by
  simp [isOffendingName, h]

theorem isOffendingName_span {c : String} (h : c ≠ "idlID") :
    (span c).isOffendingName = false := by
  have hclass : (span c).hasClass "idlID" = false := by
    simpa [span, addClass, hasClass, ofTag] using h.symm
  simp [isOffendingName, hclass]

@[simp] theorem isOffendingName_setAttr (head : StartTag) (name value : String) :
    (head.setAttr name value).isOffendingName = head.isOffendingName := rfl

end StartTag

namespace Markup

/-- The names in nodes in a row that are marked as offending, as they are written. -/
def offendingNames (nodes : List Markup) : List String :=
  ((elementsOf nodes).filter (·.head.isOffendingName)).map (·.textContent)

@[simp] theorem offendingNames_append (xs ys : List Markup) :
    offendingNames (xs ++ ys) = offendingNames xs ++ offendingNames ys := by
  simp [offendingNames]

@[simp] theorem offendingNames_join (nodes : List Markup) :
    offendingNames (join nodes) = offendingNames nodes := by
  simp [offendingNames]

theorem offendingNames_flatMap {α : Type} (f : α → List Markup) (items : List α) :
    offendingNames (items.flatMap f) = items.flatMap fun a => offendingNames (f a) := by
  induction items with
  | nil => simp [offendingNames, elementsOf]
  | cons a items ih => simp [ih]

theorem offendingNames_of_made {nodes : List Markup}
    (h : Made (fun head => head.isOffendingName = false) nodes) : offendingNames nodes = [] := by
  rw [offendingNames, List.map_eq_nil_iff, List.filter_eq_nil_iff]
  intro e he
  simp [(h e he).1]

theorem offendingNames_markup {element : Element} (h : element.head.isOffendingName = false) :
    offendingNames [element.markup] = offendingNames element.children := by
  simp [offendingNames, Element.markup, elementsOf, elements, h]

theorem offendingNames_wrap {head : StartTag} (children : List Markup)
    (h : head.isOffendingName = false) :
    offendingNames [wrap head children] = offendingNames children := by
  simp [offendingNames, wrap, elementsOf, elements, h]

theorem offendingNames_label (head : StartTag) (text : String) :
    offendingNames [label head text] = if head.isOffendingName then [text] else [] := by
  have hinside : elementsOf (join [.text text]) = [] := by
    simp [elementsOf, elements]
  have htext : (Element.mk head (join [.text text])).textContent = text := by
    simp [Element.textContent]
  rw [offendingNames, label, wrap, elementsOf, elementsOf, elements, hinside, List.append_nil]
  cases hhead : head.isOffendingName with
  | true => simpa [hhead] using htext
  | false => simp [hhead]

end Markup

namespace Rendering

open StartTag

variable (rendering : Rendering)

/-! ### Start tags -/

theorem tag_termLinkHead (designation : Designation) (c : String) :
    (termLinkHead designation c).tag = .a := by
  simp [termLinkHead]

theorem tag_memberNameHead (owner : Definition) (m : Member) (place : MemberPlace) (c : String) :
    (rendering.memberNameHead owner m place c).tag ≠ .span := by
  unfold memberNameHead
  split
  · simp [tag_termLinkHead]
  · split
    · unfold memberDfn
      dsimp only
      split <;> simp
    · simp [tag_linkHead]

theorem isOffendingName_member (kind : Member.Kind) :
    (StartTag.span kind.cssClass).isOffendingName = false := by
  apply isOffendingName_span
  cases kind <;> decide

/-- Of all start tags in a definition, that of its name alone can mark a name. -/
theorem uses_unmarked : rendering.Uses fun head => head.isOffendingName = false where
  span := by
    have hplain : ∀ c ∈ plainClasses, c ≠ "idlID" := by decide
    exact fun c hc => isOffendingName_span (hplain c hc)
  link := fun target => isOffendingName_of_tag (by simp [tag_linkHead])
  superclass := fun target => isOffendingName_of_tag (by simp [tag_linkHead])
  member := by
    intro m place
    unfold memberHead
    cases m.name? with
    | none => exact isOffendingName_member m.kind
    | some name => exact isOffendingName_member m.kind
  enumItem := fun m => isOffendingName_member m.kind
  memberName := fun owner m place c _ =>
    isOffendingName_of_tag (rendering.tag_memberNameHead owner m place c)

theorem isOffendingName_definitionHead (d : Definition) (place : Place) :
    (rendering.definitionHead d place).isOffendingName = false := by
  have hkind : (StartTag.span d.kind.cssClass).isOffendingName = false := by
    apply isOffendingName_span
    cases d.kind <;> decide
  unfold definitionHead
  dsimp only
  split
  · exact hkind
  · split
    · exact hkind
    · exact hkind

/-- The definition extends what its name resolves to, and its name resolves to nothing. -/
def isUnresolved (d : Definition) : Bool :=
  d.isPartial && (rendering.resolver.type? d.name).isNone

theorem isOffendingName_nameHead (d : Definition) (place : Place) :
    (rendering.nameHead d place).isOffendingName = rendering.isUnresolved d := by
  unfold nameHead isUnresolved
  split
  · rename_i hpartial
    unfold partialHead
    cases rendering.resolver.type? d.name with
    | some target =>
      have hlink : (linkHead target (some "idlID")).isOffendingName = false :=
        isOffendingName_of_tag (by simp [tag_linkHead])
      simp [hlink]
    | none =>
      have hspan : ((StartTag.span "idlID").addClass offendingClass).isOffendingName = true := by
        decide
      simp [hspan, hpartial]
  · rename_i hpartial
    rw [Bool.eq_false_iff.mpr hpartial, Bool.false_and]
    apply isOffendingName_of_tag
    split
    · simp [tag_termLinkHead]
    · unfold definitionDfn
      dsimp only
      split <;> simp

/-! ### Definitions and blocks -/

theorem isUnresolved_of_includes {d : Definition} (h : d.kind = .includes) :
    rendering.isUnresolved d = false := by
  have hpartial : d.isPartial = false := by
    obtain ⟨attrs, form⟩ := d
    cases form with
    | container head => cases head <;> cases h
    | typedef | callback | includes => rfl
  rw [isUnresolved, hpartial, Bool.false_and]

/-- The name of a definition is as it was without what comes before the definition. -/
theorem text_nameToken_bare (d : Definition) :
    d.bare.form.nameToken.text = d.form.nameToken.text := by
  obtain ⟨_ | attrs, form⟩ := d
  · cases form <;> rfl
  · rfl

/-- A definition has no other name that is marked than its own. -/
theorem offendingNames_definition (d : Definition) (place : Place) :
    offendingNames (rendering.definition d place) =
      if rendering.isUnresolved d then [d.form.nameToken.text] else [] := by
  have hunmarked := rendering.uses_unmarked
  have htrivia := offendingNames_of_made (made_trivia hunmarked d.leadingTrivia)
  have hattrs := offendingNames_of_made (made_attrs hunmarked d.bare.attrs)
  have hform : offendingNames (rendering.definitionForm d.bare place d.bare.form) =
      if rendering.isUnresolved d then [d.form.nameToken.text] else [] := by
    by_cases hkind : d.bare.form.kind = .includes
    · have hnone := rendering.isUnresolved_of_includes (d.kind_bare.symm.trans hkind)
      rw [offendingNames_of_made (made_definitionForm_of_includes hunmarked d.bare place hkind),
        hnone]
      rfl
    · obtain ⟨before, after, heq, hmade⟩ := rendering.exists_definitionForm_eq d.bare place hkind
      obtain ⟨hbefore, hafter⟩ := hmade _ hunmarked
      rw [heq, ← List.singleton_append, offendingNames_append, offendingNames_append,
        offendingNames_label, offendingNames_of_made hbefore, offendingNames_of_made hafter,
        nameHead_bare, isOffendingName_nameHead, text_nameToken_bare, List.nil_append,
        List.append_nil]
  rw [definition, offendingNames_append, htrivia, List.nil_append, definitionElement,
    offendingNames_wrap _ (rendering.isOffendingName_definitionHead d.bare place),
    offendingNames_append, hattrs, List.nil_append, hform]

/-- The partial definitions whose names resolve to nothing. -/
def unresolved (definitions : List Definition) : List Definition :=
  definitions.filter rendering.isUnresolved

/-- **The names that are marked in a block are those of the partial definitions in it whose names
resolve to nothing, in order.** -/
theorem offendingNames_block (block : Block) (index : Nat) :
    offendingNames (rendering.block block index).children =
      (rendering.unresolved block.definitions).map (·.form.nameToken.text) := by
  have hrest : offendingNames (block.remainder.elim (trivia block.trailing) fun r => [.text r]) =
      [] := by
    apply offendingNames_of_made
    cases block.remainder with
    | none => exact made_trivia rendering.uses_unmarked block.trailing
    | some r => simp
  have hdefinitions (definitions : List Definition) (start : Nat) :
      ((definitions.zipIdx start).flatMap fun entry =>
        offendingNames (rendering.definition entry.1 ⟨index, entry.2⟩)) =
          (rendering.unresolved definitions).map (·.form.nameToken.text) := by
    induction definitions generalizing start with
    | nil => rfl
    | cons d definitions ih =>
      have hfirst := rendering.offendingNames_definition d ⟨index, start⟩
      rw [List.zipIdx_cons, List.flatMap_cons, ih, unresolved, unresolved, List.filter_cons]
      dsimp only
      rw [hfirst]
      split <;> rfl
  rw [Rendering.block, offendingNames_join, offendingNames_append, hrest, List.append_nil,
    offendingNames_flatMap]
  exact hdefinitions block.definitions 0

end Rendering

end WebIdl
