import WebIdl.Proofs.Grammar.Nested
import WebIdl.Proofs.Syntax.Shape

/-!
# The shape of what the rules for nested nodes give

Types, arguments and extended attributes have their shape, and so has all that is nested in them.

* `separated_by` — the items of a separated list are as the rule for them gives them, and the word
  stands between them.
* `Nested.Shapely` — the nodes of the two rules that the others recur on have their shape; every
  other rule keeps that (`Nested.Shapely.extAttrs`, `Nested.Shapely.idlType` and the lemmas before
  them), and by induction on the depth so do the rules of all depths (`nested_shapely`).
* `idlType_shaped`, `extAttrs_shaped`, `argumentList_shaped` — and with them the rules without a
  depth.
-/

namespace WebIdl.Grammar

open Rule

/-! ### Lists -/

/-- Between the items of a separated list stands the word, and each item is as the rule for it gives
it. -/
theorem separated_by {α : Type} {item : Rule α} {P : α → Prop} (word : String)
    (h : item.Reads fun a _ => P a) :
    (separated item word).Reads fun items _ => items.By word ∧ ∀ a ∈ items.items, P a := by
  have hall : (separated item word).Reads fun items _ =>
      (∀ token ∈ items.separators, token.is word) ∧ ∀ a ∈ items.items, P a := by
    refine Reads.bounded fun bound => ?_
    induction bound with
    | zero =>
      apply h.bind
      intro a _ ha
      exact .pure ⟨by simp [Separated.separators], by simpa [Separated.items] using ha⟩
    | succ bound ih =>
      apply h.bind
      intro a _ ha
      apply (Reads.eat word).bind
      rintro (_ | separator) _ ⟨-, hseparator⟩
      · exact .pure ⟨by simp [Separated.separators], by simpa [Separated.items] using ha⟩
      · apply ih.bind
        rintro items _ ⟨hseparators, hitems⟩
        refine .pure ⟨?_, ?_⟩
        · simpa [Separated.separators] using ⟨hseparator separator rfl, hseparators⟩
        · simpa [Separated.items] using ⟨ha, hitems⟩
  apply hall.mono
  rintro items _ ⟨hseparators, hitems⟩
  exact ⟨⟨items.length_items, hseparators⟩, hitems⟩

/-! ### Literals and values -/

theorem literal_shaped (missing : Cause) : (literal missing).Reads fun l _ => l.Shaped := by
  apply (Reads.eat "[").bind
  rintro (_ | opening) _ ⟨-, hopening⟩
  · apply (Reads.eat "\x7b").bind
    rintro (_ | opening) _ ⟨-, hopening⟩
    · apply (Reads.next _ missing).mono
      rintro l _ ⟨token, htoken, -⟩
      obtain ⟨kind, hkind, rfl⟩ := Option.map_eq_some_iff.mp htoken
      exact hkind
    · apply (Reads.expect "\x7d" _).bind
      rintro closing _ ⟨-, hclosing⟩
      exact .pure ⟨hopening opening rfl, hclosing⟩
  · apply (Reads.expect "]" _).bind
    rintro closing _ ⟨-, hclosing⟩
    exact .pure ⟨hopening opening rfl, hclosing⟩

theorem default?_shaped : default?.Reads fun default _ => ∀ d ∈ default, d.Shaped := by
  apply (Reads.eat "=").bind
  rintro (_ | assign) _ ⟨-, hassign⟩
  · exact .pure (by simp)
  · apply (literal_shaped _).bind
    intro value _ hvalue
    exact .pure (by simpa [Default.Shaped] using ⟨hassign assign rfl, hvalue⟩)

theorem shaped_of_scalarValue? {token : Token} {value : ExtAttr.Value}
    (h : scalarValue? token = some value) : value.Shaped := by
  unfold scalarValue? at h
  split at h
  case h_5 =>
    split at h
    · cases h
      assumption
    · cases h
  all_goals cases h
  all_goals assumption

theorem extAttrValue_shaped : extAttrValue.Reads fun value _ => value.Shaped := by
  apply (Reads.eat "(").bind
  rintro (_ | opening) _ ⟨-, hopening⟩
  · apply (Reads.next _ _).mono
    rintro value _ ⟨token, htoken, -⟩
    exact shaped_of_scalarValue? htoken
  · have item : (need isListed .attrNoValue).Reads fun token _ => isListed token = true :=
      (Reads.need _ _).mono fun _ _ h => h.2
    apply (separated_by "," item).bind
    rintro items _ ⟨hby, hlisted⟩
    apply (Reads.expect ")" _).bind
    rintro closing _ ⟨-, hclosing⟩
    exact .pure ⟨hopening opening rfl, hby, hlisted, hclosing⟩

/-! ### One level of nesting -/

namespace Nested

/-- A second `long` is read after the first. -/
theorem longer_texts (word : Token) : (longer word).Reads fun rest _ =>
    rest = [] ∨ word.text = "long" ∧ rest.map (·.text) = ["long"] := by
  unfold Nested.longer
  apply Reads.ite
  · intro hword
    apply (Reads.eat "long").bind
    rintro (_ | second) _ ⟨-, hsecond⟩
    · exact .pure (.inl rfl)
    · have hlong : second.text = "long" := Token.text_of_is (hsecond second rfl)
      exact .pure (.inr ⟨by simpa using hword, by simp [hlong]⟩)
  · intro _
    exact .pure (.inl rfl)

theorem namedType_shaped {first : Token} (hfirst : first.kind = .identifier) :
    (namedType first).Reads fun form _ => form.Shaped ∧ AllShaped form.nodes := by
  have named {rest : List Token}
      (hrest : rest = [] ∨ (first :: rest).map (·.text) ∈ TypeForm.builtins) :
      (TypeForm.named first rest).Shaped ∧ AllShaped (TypeForm.named first rest).nodes :=
    ⟨⟨hfirst, hrest⟩, by simp [TypeForm.nodes]⟩
  unfold Nested.namedType
  apply Reads.ite
  · intro hunsigned
    have hunsigned : first.text = "unsigned" := by simpa using hunsigned
    apply (Reads.need _ _).bind
    rintro second _ ⟨-, hsecond⟩
    have hsecond : second.text = "short" ∨ second.text = "long" := by
      rcases (Bool.or_eq_true_iff.mp hsecond) with h | h
      · exact .inl (Token.text_of_is h)
      · exact .inr (Token.text_of_is h)
    apply (longer_texts second).bind
    rintro rest _ hrest
    apply Reads.pure
    apply named
    right
    rcases hrest with rfl | ⟨hlong, hrest⟩
    · rcases hsecond with h | h <;> simp [hunsigned, h, TypeForm.builtins]
    · simp [hunsigned, hlong, hrest, TypeForm.builtins]
  · intro _
    apply Reads.ite
    · intro hunrestricted
      have hunrestricted : first.text = "unrestricted" := by simpa using hunrestricted
      apply (Reads.need _ _).bind
      rintro second _ ⟨-, hsecond⟩
      apply Reads.pure
      apply named
      right
      rcases (Bool.or_eq_true_iff.mp hsecond) with h | h <;>
        simp [hunrestricted, Token.text_of_is h, TypeForm.builtins]
    · intro _
      apply (longer_texts first).bind
      rintro rest _ hrest
      apply Reads.pure
      apply named
      apply hrest.imp_right
      rintro ⟨hlong, hrest⟩
      simp [hlong, hrest, TypeForm.builtins]

/-- What the two rules give has its shape, with all that is nested in it. -/
structure Shapely (inner : Nested) : Prop where
  type (missing : Cause) : (inner.type missing).Reads fun type _ => AllShaped type.nodes
  attrs : inner.attrs.Reads fun attrs _ => AllShaped (attrs.elim [] (·.nodes))

namespace Shapely

variable {inner : Nested} (h : inner.Shapely)

include h

theorem argument : inner.argument.Reads fun argument _ => AllShaped argument.nodes := by
  apply h.attrs.bind
  intro attrs _ hattrs
  apply (Reads.eat "optional").bind
  rintro (_ | keyword) _ ⟨-, hkeyword⟩
  · apply (h.type _).bind
    intro type _ htype
    apply (Reads.eat "...").bind
    rintro variadic _ ⟨-, hvariadic⟩
    apply (Reads.identifier _).bind
    rintro name _ ⟨-, hname⟩
    apply Reads.pure
    rw [Argument.nodes_eq, allShaped_cons, allShaped_append]
    exact ⟨Argument.shaped_required hname hvariadic, hattrs, htype⟩
  · apply (h.type _).bind
    intro type _ htype
    apply (Reads.identifier _).bind
    rintro name _ ⟨-, hname⟩
    apply default?_shaped.bind
    intro default _ hdefault
    apply Reads.pure
    rw [Argument.nodes_eq, allShaped_cons, allShaped_append]
    exact ⟨Argument.shaped_optional (hkeyword keyword rfl) hname hdefault, hattrs, htype⟩

theorem argumentList (missing : Cause) :
    (inner.argumentList missing).Reads fun arguments _ => AllShaped arguments.nodes := by
  apply (Reads.expect "(" missing).bind
  rintro opening _ ⟨-, hopening⟩
  apply (Reads.eat ")").bind
  rintro (_ | closing) _ ⟨-, hclosing⟩
  · apply (separated_by "," h.argument).bind
    rintro items _ ⟨hby, hitems⟩
    apply (Reads.expect ")" _).bind
    rintro closing _ ⟨-, hclosing⟩
    apply Reads.pure
    rw [ArgumentList.nodes_mk, allShaped_cons]
    refine ⟨⟨hopening, ?_, hclosing⟩, allShaped_flatMap.mpr hitems⟩
    intro list hlist
    obtain rfl := Option.some.inj hlist
    exact hby
  · apply Reads.pure
    rw [ArgumentList.nodes_mk, allShaped_cons]
    exact ⟨⟨hopening, by simp, hclosing closing rfl⟩, allShaped_nil⟩

theorem extAttr : inner.extAttr.Reads fun attr _ => AllShaped attr.nodes := by
  have arguments {name : Token} {value : Option ExtAttr.Assignment}
      (hname : name.kind = .identifier) (hvalue : ∀ a ∈ value, a.Shaped) :
      Reads (do
        if ← sees (·.is "(") then
          return ExtAttr.mk name value (some (← inner.argumentList .attrNoArguments))
        return ExtAttr.mk name value none)
        fun attr _ => AllShaped attr.nodes := by
    apply (Reads.sees _).bind
    rintro (_ | _) _ -
    · apply Reads.pure
      rw [ExtAttr.nodes_mk, allShaped_cons]
      exact ⟨⟨hname, hvalue⟩, allShaped_nil⟩
    · apply (h.argumentList _).bind
      intro arguments _ harguments
      apply Reads.pure
      rw [ExtAttr.nodes_mk, allShaped_cons]
      exact ⟨⟨hname, hvalue⟩, harguments⟩
  apply (Reads.identifier _).bind
  rintro name _ ⟨-, hname⟩
  apply (Reads.eat "=").bind
  rintro (_ | assign) _ ⟨-, hassign⟩
  · exact arguments hname (by simp)
  · apply extAttrValue_shaped.bind
    intro value _ hvalue
    apply arguments hname
    intro a ha
    obtain rfl := Option.some.inj ha
    exact ⟨hassign assign rfl, hvalue⟩

theorem extAttrs : inner.extAttrs.Reads fun attrs _ => AllShaped (attrs.elim [] (·.nodes)) := by
  apply (Reads.eat "[").bind
  rintro (_ | opening) _ ⟨-, hopening⟩
  · exact .pure allShaped_nil
  · apply (separated_by "," h.extAttr).bind
    rintro items _ ⟨hby, hitems⟩
    apply (Reads.expect "]" _).bind
    rintro closing _ ⟨-, hclosing⟩
    apply Reads.pure
    rw [Option.elim_some, ExtAttrList.nodes_mk, allShaped_cons]
    exact ⟨⟨hopening opening rfl, hby, hclosing⟩, allShaped_flatMap.mpr hitems⟩

theorem singleType (missing : Cause) :
    (inner.singleType missing).Reads fun form _ => form.Shaped ∧ AllShaped form.nodes := by
  apply (Reads.identifier missing).bind
  rintro first _ ⟨-, hfirst⟩
  apply Reads.ite
  · intro hgeneric
    apply (Reads.eat "<").bind
    rintro (_ | opening) _ ⟨-, hopening⟩
    · exact .pure ⟨⟨hfirst, .inl rfl⟩, by simp [TypeForm.nodes]⟩
    · apply (separated_by "," (h.type _)).bind
      rintro arguments _ ⟨hby, harguments⟩
      apply (Reads.expect ">" _).bind
      rintro closing _ ⟨-, hclosing⟩
      refine .pure ⟨⟨hfirst, hgeneric, hopening opening rfl, hby, hclosing⟩, ?_⟩
      simpa [TypeForm.nodes, typeNodes_eq] using harguments
  · intro _
    exact namedType_shaped hfirst

theorem unionType (missing : Cause) {opening : Token} (hopening : opening.is "(") :
    (inner.unionType missing opening).Reads fun form _ => form.Shaped ∧ AllShaped form.nodes := by
  apply (h.type missing).bind
  intro first _ hfirst
  apply (Reads.eat "or").bind
  rintro (_ | separator) _ ⟨-, hseparator⟩
  · exact .fail
  · apply (separated_by "or" (h.type _)).bind
    rintro rest _ ⟨hby, hrest⟩
    apply (Reads.expect ")" _).bind
    rintro closing _ ⟨-, hclosing⟩
    have hall : (Separated.cons first separator rest).By "or" :=
      ⟨Separated.length_items _,
        List.forall_mem_cons.mpr ⟨hseparator separator rfl, hby.separators_are⟩⟩
    have htwo : 2 ≤ (Separated.cons first separator rest).items.length := by
      simp [Separated.items]
    refine .pure ⟨⟨hopening, hall, htwo, hclosing⟩, ?_⟩
    simpa [TypeForm.nodes, typeNodes_eq] using ⟨hfirst, hrest⟩

theorem idlType (missing : Cause) :
    (inner.idlType missing).Reads fun type _ => AllShaped type.nodes := by
  have nullable {attrs : Option ExtAttrList} {form : TypeForm}
      (hattrs : AllShaped (attrs.elim [] (·.nodes))) (hform : form.Shaped ∧ AllShaped form.nodes) :
      Reads (do return IdlType.mk attrs form (← eat "?")) fun type _ => AllShaped type.nodes := by
    apply (Reads.eat "?").bind
    rintro mark _ ⟨-, hmark⟩
    apply Reads.pure
    rw [IdlType.nodes_mk, allShaped_cons, allShaped_append]
    exact ⟨⟨hform.1, hmark⟩, hattrs, hform.2⟩
  apply h.extAttrs.bind
  intro attrs _ hattrs
  apply (Reads.eat "(").bind
  rintro (_ | opening) _ ⟨-, hopening⟩
  · apply (h.singleType missing).bind
    intro form _ hform
    exact nullable hattrs hform
  · apply (h.unionType missing (hopening opening rfl)).bind
    intro form _ hform
    exact nullable hattrs hform

end Shapely

end Nested

/-! ### All levels -/

/-- Each level gives what has its shape because the level inside it does. -/
theorem nested_shapely (depth : Nat) : (nested depth).Shapely := by
  induction depth with
  | zero => exact ⟨fun _ => .fail, .pure allShaped_nil⟩
  | succ depth ih => exact ⟨ih.idlType, ih.extAttrs⟩

theorem idlType_shaped (missing : Cause) :
    (idlType missing).Reads fun type _ => AllShaped type.nodes :=
  .bounded fun depth => (nested_shapely depth).idlType missing

theorem extAttrs_shaped : extAttrs.Reads fun attrs _ => AllShaped (attrs.elim [] (·.nodes)) :=
  .bounded fun depth => (nested_shapely depth).extAttrs

theorem argumentList_shaped (missing : Cause) :
    (argumentList missing).Reads fun arguments _ => AllShaped arguments.nodes :=
  .bounded fun depth => (nested_shapely depth).argumentList missing

end WebIdl.Grammar
