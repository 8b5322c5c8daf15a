import WebIdl.Proofs.Markup.Reading

/-!
# Start tags that are written

Every start tag is built by adding classes and setting attributes one by one, which never makes two
of one name. The attributes that are set have names from a short list.

* `StartTag.Sound` — the classes and the names of the attributes are distinct, and the names are
  from that list.
* `StartTag.Written` — besides, the classes can be told from each other.
* `Rendering.uses_written`, `Rendering.written_definitionHead`, `Rendering.written_nameHead` — the
  start tags of rendered blocks are so.
-/

namespace WebIdl

open Html

namespace StartTag

/-- The names of all attributes that are ever set. -/
def attributeNames : List String :=
  ["id", "title", "href", "data-title", "data-link-type", "data-xref-type", "data-link-for",
    "data-dfn-type", "data-dfn-for", "data-idl", "data-export"]

/-- Nothing is said twice, and only what some attribute is for. -/
structure Sound (head : StartTag) : Prop where
  classes_nodup : head.classes.Nodup
  names_nodup : (head.attributes.map (·.1)).Nodup
  names : ∀ a ∈ head.attributes, a.1 ∈ attributeNames

/-- The start tag is sound, and its classes can be told from each other. -/
structure Written (head : StartTag) : Prop extends Sound head where
  classed : Classed head

variable {head : StartTag} {name value : String}

theorem Sound.keyed (h : head.Sound) : Keyed head := by
  have hnames : ∀ name ∈ attributeNames, name ≠ "class" ∧ '=' ∉ name.toList := by decide
  exact fun a ha => hnames a.1 (h.names a ha)

/-- No two attributes that are written have one name, that of the classes among them. -/
theorem Sound.nodup_attributes (h : head.Sound) : ((Html.attributes head).map (·.1)).Nodup := by
  unfold Html.attributes
  split
  · exact h.names_nodup
  · rw [List.map_cons, List.nodup_cons]
    refine ⟨?_, h.names_nodup⟩
    intro hclass
    obtain ⟨a, ha, heq⟩ := List.mem_map.mp hclass
    exact (h.keyed a ha).1 heq

/-! ### Classes -/

theorem written_ofTag (tag : Tag) : (ofTag tag).Written where
  classes_nodup := List.nodup_nil
  names_nodup := List.nodup_nil
  names := by simp [ofTag]
  classed := by simp [Classed, ofTag]

theorem Sound.addClass (h : head.Sound) (c : String) : (head.addClass c).Sound := by
  unfold StartTag.addClass
  split
  · exact h
  · rename_i hnot
    refine ⟨?_, h.names_nodup, h.names⟩
    have hnew : c ∉ head.classes := by simpa [hasClass] using hnot
    have hclasses := List.Nodup.concat hnew h.classes_nodup
    rwa [List.concat_eq_append] at hclasses

theorem mem_classes_addClass {c d : String} (hd : d ∈ (head.addClass c).classes) :
    d ∈ head.classes ∨ d = c := by
  unfold StartTag.addClass at hd
  split at hd
  · exact .inl hd
  · simpa using hd

theorem Written.addClass (h : head.Written) (c : String) (hc : IsClassName c) :
    (head.addClass c).Written where
  toSound := h.toSound.addClass c
  classed := by
    intro d hd
    rcases mem_classes_addClass hd with hd | rfl
    · exact h.classed d hd
    · exact hc

/-! ### Attributes -/

theorem names_put (name value : String) (attributes : List (String × String)) :
    (put name value attributes).map (·.1) =
      if name ∈ attributes.map (·.1) then attributes.map (·.1)
      else attributes.map (·.1) ++ [name] := by
  induction attributes with
  | nil => rfl
  | cons a attributes ih =>
    obtain ⟨key, old⟩ := a
    unfold put
    by_cases hkey : key = name
    · simp [hkey]
    · have hne : name ≠ key := fun h => hkey h.symm
      rw [if_neg hkey, List.map_cons, ih, List.map_cons]
      simp only [List.mem_cons, hne, false_or]
      split <;> rfl

theorem mem_put {a : String × String} {attributes : List (String × String)}
    (ha : a ∈ put name value attributes) : a.1 ∈ attributes.map (·.1) ∨ a.1 = name := by
  have hmem : a.1 ∈ (put name value attributes).map (·.1) := List.mem_map_of_mem ha
  rw [names_put] at hmem
  split at hmem
  · exact .inl hmem
  · simpa using hmem

theorem Sound.setAttr (h : head.Sound) (name value : String) (hname : name ∈ attributeNames) :
    (head.setAttr name value).Sound where
  classes_nodup := h.classes_nodup
  names_nodup := by
    rw [StartTag.setAttr, names_put]
    split
    · exact h.names_nodup
    · rename_i hnew
      rw [← List.concat_eq_append]
      exact List.Nodup.concat hnew h.names_nodup
  names := by
    intro a ha
    rcases mem_put ha with ha | ha
    · obtain ⟨b, hb, heq⟩ := List.mem_map.mp ha
      rw [← heq]
      exact h.names b hb
    · rw [ha]
      exact hname

theorem Written.setAttr (h : head.Written) (name value : String) (hname : name ∈ attributeNames) :
    (head.setAttr name value).Written :=
  ⟨h.toSound.setAttr name value hname, h.classed⟩

theorem Written.setAttr? (h : head.Written) (name : String) (value : Option String)
    (hname : name ∈ attributeNames) : (head.setAttr? name value).Written := by
  cases value with
  | none => exact h
  | some value => exact h.setAttr name value hname

end StartTag

namespace Rendering

open StartTag

instance (c : String) : Decidable (IsClassName c) := inferInstanceAs (Decidable (_ ∧ _))

/-! ### The start tags of rendered syntax -/

theorem written_span (c : String) (hc : IsClassName c) : (StartTag.span c).Written :=
  (written_ofTag .span).addClass c hc

theorem written_linkHead (target : Target) (c : Option String) (hc : ∀ d ∈ c, IsClassName d) :
    (linkHead target c).Written := by
  have hstart : (c.elim (ofTag .a) (ofTag .a).addClass).Written := by
    cases c with
    | none => exact written_ofTag .a
    | some c => exact (written_ofTag .a).addClass c (hc c rfl)
  cases hinternal : target.isInternal with
  | true =>
    have hclass := hstart.addClass "internalDFN" (by decide)
    have hhref := hclass.setAttr "href" target.href (by decide)
    simpa [linkHead, hinternal] using hhref.setAttr _ target.linkType (by decide)
  | false =>
    have hhref := hstart.setAttr "href" target.href (by decide)
    have htype := hhref.setAttr "data-link-type" target.linkType (by decide)
    simpa [linkHead, hinternal] using htype.setAttr _ target.linkType (by decide)

theorem written_termLinkHead (designation : Designation) {c : String} (hc : IsClassName c) :
    (termLinkHead designation c).Written := by
  have hclass := ((written_ofTag .a).addClass c hc).addClass "internalDFN" (by decide)
  have hhref := hclass.setAttr "href" designation.href (by decide)
  exact hhref.setAttr _ designation.linkType (by decide)

variable (rendering : Rendering)

theorem isClassName_member (kind : Member.Kind) : IsClassName kind.cssClass := by
  cases kind <;> decide

theorem isClassName_definition (kind : Definition.Kind) : IsClassName kind.cssClass := by
  cases kind <;> decide

theorem written_memberHead (m : Member) (place : MemberPlace) :
    (rendering.memberHead m place).Written := by
  have hspan := written_span m.kind.cssClass (isClassName_member m.kind)
  unfold memberHead
  cases m.name? with
  | none => exact hspan
  | some name =>
    have hid := hspan.setAttr "id"
      (Anchor.memberWrapper m.scope name (rendering.plan.overload place)) (by decide)
    exact hid.setAttr _ name (by decide)

theorem written_memberDfn (owner : Definition) (m : Member) (place : MemberPlace) {c : String}
    (hc : IsClassName c) : (rendering.memberDfn owner m place c).Written := by
  have hid := ((written_ofTag .dfn).addClass c hc).setAttr "id"
    (Anchor.memberName m.scope (m.name?.getD "") (rendering.plan.overload place)) (by decide)
  have htype := hid.setAttr? "data-dfn-type" ((DfnType.ofMember? m.kind).map DfnType.name)
    (by decide)
  have hfor := htype.setAttr "data-dfn-for" m.scope (by decide)
  have hidl := hfor.setAttr? "data-idl" ((IdlKind.ofMember? m.kind).map IdlKind.name) (by decide)
  unfold memberDfn
  dsimp only
  split
  · exact hidl
  · exact hidl.setAttr _ "" (by decide)

theorem written_memberNameHead (owner : Definition) (m : Member) (place : MemberPlace) {c : String}
    (hc : IsClassName c) : (rendering.memberNameHead owner m place c).Written := by
  unfold memberNameHead
  split
  · rename_i designation _
    exact (written_termLinkHead designation hc).setAttr _ m.scope (by decide)
  · split
    · exact rendering.written_memberDfn owner m place hc
    · exact written_linkHead rendering.resolver.defaultToJson (some c) (by simpa using hc)

theorem uses_written : rendering.Uses Written where
  span := by
    have hplain : ∀ c ∈ plainClasses, IsClassName c := by decide
    exact fun c hc => written_span c (hplain c hc)
  link := fun target => written_linkHead target none nofun
  superclass := fun target => written_linkHead target _ (by decide)
  member := rendering.written_memberHead
  enumItem := fun m => (written_span _ (isClassName_member m.kind)).setAttr _ _ (by decide)
  memberName := by
    have hnames : ∀ c ∈ memberNameClasses, IsClassName c := by decide
    exact fun owner m place c hc => rendering.written_memberNameHead owner m place (hnames c hc)

theorem written_definitionHead (d : Definition) (place : Place) :
    (rendering.definitionHead d place).Written := by
  have hspan := written_span d.kind.cssClass (isClassName_definition d.kind)
  unfold definitionHead
  dsimp only
  split
  · exact hspan
  · split
    · have hid := hspan.setAttr "id" (Anchor.definitionWrapper d.name) (by decide)
      exact hid.setAttr _ d.name (by decide)
    · exact hspan.setAttr _ d.name (by decide)

theorem written_definitionDfn (d : Definition) (place : Place) :
    (rendering.definitionDfn d place).Written := by
  have hstart := (written_ofTag .dfn).addClass "idlID" (by decide)
  have hid := hstart.setAttr "id" (Anchor.definitionName d.name) (by decide)
  have hkinds {head : StartTag} (h : head.Written) : ((head.setAttr? "data-dfn-type"
      ((DfnType.ofDefinition? d.kind).map DfnType.name)).setAttr? "data-idl"
        ((IdlKind.ofDefinition? d.kind).map IdlKind.name)).Written :=
    (h.setAttr? _ _ (by decide)).setAttr? _ _ (by decide)
  unfold definitionDfn
  dsimp only
  split
  · exact ((hkinds hid).setAttr _ "" (by decide)).setAttr _ d.name (by decide)
  · exact (hkinds hstart).setAttr _ d.name (by decide)

theorem written_partialHead (name : String) : (rendering.partialHead name).Written := by
  unfold partialHead
  split
  · rename_i target _
    have hlink := written_linkHead target (some "idlID") (by decide)
    exact (hlink.setAttr _ _ (by decide)).setAttr _ name (by decide)
  · have hspan := (written_span "idlID" (by decide)).addClass offendingClass (by decide)
    exact hspan.setAttr _ _ (by decide)

theorem written_nameHead (d : Definition) (place : Place) :
    (rendering.nameHead d place).Written := by
  unfold nameHead
  split
  · exact rendering.written_partialHead d.name
  · split
    · exact written_termLinkHead _ (by decide)
    · exact rendering.written_definitionDfn d place

/-- All elements in a rendered block are so. -/
theorem made_written (block : Block) (index : Nat) :
    Markup.Made Written (rendering.block block index).children :=
  made_block rendering.uses_written rendering.written_definitionHead rendering.written_nameHead
    block index

end Rendering

end WebIdl
