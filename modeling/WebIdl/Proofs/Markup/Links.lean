import WebIdl.Proofs.Markup.Ids
import WebIdl.Proofs.Markup.Names

/-!
# The links in markup

* `Link`, `StartTag.link?` — what a link says: whether it stays in the document, and where it leads.
* `Rendering.follow?` — the link at a site: that of a target, of a term of the host that defines the
  name there, or of what `[Default] toJSON()` does.
* `Rendering.links_definition` — the links in a definition are those at its sites, in order.
-/

namespace WebIdl

open Markup

/-- What a link says. -/
structure Link where
  /-- The link is marked as one that stays in the document. -/
  internal : Bool
  href : Option String
deriving DecidableEq, Repr

def Target.link (target : Target) : Link := ⟨target.isInternal, some target.href⟩

def Designation.link (designation : Designation) : Link := ⟨true, some designation.href⟩

/-! ### Start tags of links -/

namespace StartTag

/-- What a start tag says if it is that of a link. -/
def link? (head : StartTag) : Option Link :=
  if head.tag = .a then some ⟨head.hasClass "internalDFN", head.attr? "href"⟩ else none

theorem link?_of_tag_ne {head : StartTag} (h : head.tag ≠ .a) : head.link? = none := by
  simp [link?, h]

@[simp] theorem attr?_addClass (head : StartTag) (c key : String) :
    (head.addClass c).attr? key = head.attr? key := by
  unfold addClass
  split <;> rfl

theorem attr?_setAttr (head : StartTag) (name value key : String) :
    (head.setAttr name value).attr? key = if key = name then some value else head.attr? key := by
  simp only [attr?, setAttr, lookup_put]

@[simp] theorem hasClass_setAttr (head : StartTag) (name value c : String) :
    (head.setAttr name value).hasClass c = head.hasClass c := rfl

theorem hasClass_addClass (head : StartTag) (c key : String) :
    (head.addClass c).hasClass key = (head.hasClass key || key == c) := by
  unfold addClass
  split
  · rename_i hc
    by_cases hkey : key = c
    · simp [hkey, hc]
    · simp [beq_false_of_ne hkey]
  · by_cases hkey : key = c <;> simp [hasClass, hkey]

@[simp] theorem hasClass_ofTag (tag : Tag) (c : String) : (ofTag tag).hasClass c = false := rfl

/-- Attributes other than the address do not change a link. -/
theorem link?_setAttr (head : StartTag) {name : String} (value : String) (h : name ≠ "href") :
    (head.setAttr name value).link? = head.link? := by
  simp [link?, attr?_setAttr, h.symm]

end StartTag

namespace Rendering

open StartTag

theorem link?_linkHead (target : Target) : (linkHead target none).link? = some target.link := by
  cases hinternal : target.isInternal <;>
    simp [linkHead, link?, Target.link, hinternal, attr?_setAttr, hasClass_addClass]

/-- Classes other than the mark do not change a link. -/
theorem link?_linkHead_some (target : Target) {c : String} (h : c ≠ "internalDFN") :
    (linkHead target (some c)).link? = some target.link := by
  cases hinternal : target.isInternal <;>
    simp [linkHead, link?, Target.link, hinternal, attr?_setAttr, hasClass_addClass,
      beq_false_of_ne h.symm]

theorem link?_termLinkHead (designation : Designation) (c : String) :
    (termLinkHead designation c).link? = some designation.link := by
  simp [termLinkHead, link?, Designation.link, attr?_setAttr, hasClass_addClass]

variable (rendering : Rendering)

/-- The link at the name of a member. -/
def followMember? (place : MemberPlace) (definesItself : Bool) : Option Link :=
  match rendering.claims.member? place with
  | some designation => some designation.link
  | none => if definesItself then none else some rendering.resolver.defaultToJson.link

/-- The link at a site of the definition at a place. -/
def follow? (place : Place) : Site → Option Link
  | .type name _ => (rendering.resolver.type? name).map Target.link
  | .extAttr name => (rendering.resolver.extAttr? name).map Target.link
  | .definition => (rendering.claims.definition? place).map Designation.link
  | .member index definesItself => rendering.followMember? (place.member index) definesItself

theorem link?_definitionDfn (d : Definition) (place : Place) :
    (rendering.definitionDfn d place).link? = none := by
  apply link?_of_tag_ne
  unfold definitionDfn
  cases rendering.plan.owns place <;> simp

theorem link?_partialHead (name : String) :
    (rendering.partialHead name).link? = (rendering.resolver.type? name).map Target.link := by
  unfold partialHead
  cases rendering.resolver.type? name with
  | some target =>
    rw [link?_setAttr _ _ (by decide), link?_setAttr _ _ (by decide)]
    exact link?_linkHead_some target (by decide)
  | none =>
    apply link?_of_tag_ne
    simp

theorem link?_nameHead (d : Definition) (place : Place) :
    (rendering.nameHead d place).link? = rendering.follow? place d.nameSite := by
  unfold nameHead Definition.nameSite
  split
  · exact rendering.link?_partialHead d.name
  · rw [follow?]
    cases rendering.claims.definition? place with
    | some designation => exact link?_termLinkHead designation "idlID"
    | none => exact rendering.link?_definitionDfn d place

theorem link?_memberDfn (owner : Definition) (m : Member) (place : MemberPlace) (c : String) :
    (rendering.memberDfn owner m place c).link? = none := by
  apply link?_of_tag_ne
  unfold memberDfn
  split <;> simp

theorem link?_memberNameHead (owner : Definition) (m : Member) (place : MemberPlace) {c : String}
    (hc : c ∈ memberNameClasses) :
    (rendering.memberNameHead owner m place c).link? =
      rendering.followMember? place m.definesItself := by
  have hmark : c ≠ "internalDFN" := by
    rintro rfl
    revert hc
    decide
  unfold memberNameHead followMember?
  cases rendering.claims.member? place with
  | some designation =>
    dsimp only
    rw [link?_setAttr _ _ (by decide)]
    exact link?_termLinkHead designation c
  | none =>
    dsimp only
    split
    · exact rendering.link?_memberDfn owner m place c
    · exact link?_linkHead_some _ hmark

/-- Every link of a definition is at a site. -/
theorem sees_links (d : Definition) (place : Place) :
    rendering.SeesNames d place link? (rendering.follow? place) where
  span c := link?_of_tag_ne (by simp)
  type name nested := by
    simp only [link?_linkHead]
    exact Option.map_eq_bind
  extAttr name := by
    simp only [link?_linkHead]
    exact Option.map_eq_bind
  frame head htag := by
    refine link?_of_tag_ne ?_
    rcases htag with htag | htag <;> simp [htag]
  superclass target := by
    rw [link?_linkHead, link?_linkHead_some target (by decide)]
  name := rendering.link?_nameHead d place
  member m index _ _ _ hc := rendering.link?_memberNameHead d m (place.member index) hc

/-- **The links of a definition are those at its sites, in order.** -/
theorem links_definition (d : Definition) (place : Place) :
    collect link? (rendering.definition d place) = d.sites.filterMap (rendering.follow? place) :=
  collect_definition (rendering.sees_links d place)

end Rendering

end WebIdl
