import WebIdl.Grammar.Nested
import WebIdl.Proofs.Grammar.Rule

/-!
# Failures that name no definition

Only `Rule.within` says which definition a failure is in. The failures of rules that are made
without it say nothing.

* `Rule.Unnamed` — such rules; a rule is followed along its steps, as in `Unnamed.bind`.
* `nested_unnamed`, `unnamed_idlType`, `unnamed_extAttrs` — the rules for types and for extended
  attributes are such rules, at every depth.
-/

namespace WebIdl.Grammar

open Rule

namespace Rule

variable {α β : Type}

/-- The failures of the rule do not say which definition they are in. -/
def Unnamed (rule : Rule α) : Prop :=
  ∀ ⦃before failure⦄, rule before = .error failure → failure.since = none

namespace Unnamed

variable {x y : Rule α} {f : α → Rule β}

theorem fail (cause : Cause) : Unnamed (Rule.fail cause : Rule α) := by
  intro before failure h
  cases h
  rfl

theorem pure (a : α) : Unnamed (Pure.pure a : Rule α) := by
  intro before failure h
  cases h

theorem bind (hx : x.Unnamed) (hf : ∀ a, (f a).Unnamed) : Unnamed (x >>= f) := by
  intro before failure h
  rcases bind_eq_error.mp h with hfirst | ⟨a, between, -, hsecond⟩
  · exact hx hfirst
  · exact hf a hsecond

theorem ite {c : Prop} [Decidable c] (hx : x.Unnamed) (hy : y.Unnamed) :
    Unnamed (if c then x else y) := by
  split
  · exact hx
  · exact hy

/-- A bound that is worked out from the tokens left makes no difference. -/
theorem bounded {rule : Nat → Rule α} (h : ∀ bound, (rule bound).Unnamed) :
    Unnamed fun rest => rule rest.length rest :=
  fun before _ hfail => h before.length hfail

theorem next? (f : Token → Option α) : Unnamed (Rule.next? f) := by
  intro before failure h
  unfold Rule.next? at h
  split at h
  · cases h
  · split at h
    · cases h
    · cases h

theorem next (f : Token → Option α) (cause : Cause) : Unnamed (Rule.next f cause) := by
  apply (next? f).bind
  rintro (_ | a)
  · exact fail cause
  · exact pure a

theorem eat (word : String) : Unnamed (Rule.eat word) := next? _

theorem expect (word : String) (cause : Cause) : Unnamed (Rule.expect word cause) := next _ cause

theorem identifier (cause : Cause) : Unnamed (Rule.identifier cause) := next _ cause

theorem sees (p : Token → Bool) : Unnamed (Rule.sees p) := by
  intro before failure h
  cases h

theorem seesSecond (p : Token → Bool) : Unnamed (Rule.seesSecond p) := by
  intro before failure h
  cases h

theorem separated (h : x.Unnamed) (word : String) : Unnamed (Rule.separated x word) := by
  apply bounded
  intro bound
  induction bound with
  | zero => exact h.bind fun _ => pure _
  | succ bound ih =>
    apply h.bind
    intro a
    apply (eat word).bind
    rintro (_ | separator)
    · exact pure _
    · exact ih.bind fun _ => pure _

end Unnamed

end Rule

/-! ### Literals and values -/

theorem unnamed_literal (missing : Cause) : (literal missing).Unnamed := by
  apply (Unnamed.eat "[").bind
  rintro (_ | opening)
  case some => exact (Unnamed.expect "]" _).bind fun _ => .pure _
  apply (Unnamed.eat "\x7b").bind
  rintro (_ | opening)
  case some => exact (Unnamed.expect "\x7d" _).bind fun _ => .pure _
  exact .next _ missing

theorem unnamed_default? : default?.Unnamed := by
  apply (Unnamed.eat "=").bind
  rintro (_ | assign)
  · exact .pure none
  · exact (unnamed_literal _).bind fun _ => .pure _

theorem unnamed_extAttrValue : extAttrValue.Unnamed := by
  apply (Unnamed.eat "(").bind
  rintro (_ | opening)
  · exact .next _ _
  · apply (Unnamed.separated (.next _ _) ",").bind
    intro items
    exact (Unnamed.expect ")" _).bind fun _ => .pure _

/-! ### One level of nesting -/

namespace Nested

/-- The rules that the others recur on have unnamed failures. -/
structure Unnamed (inner : Nested) : Prop where
  type (missing : Cause) : (inner.type missing).Unnamed
  attrs : inner.attrs.Unnamed

namespace Unnamed

variable {inner : Nested} (h : inner.Unnamed)

include h

theorem argument : inner.argument.Unnamed := by
  apply h.attrs.bind
  intro attrs
  apply (Rule.Unnamed.eat "optional").bind
  rintro (_ | keyword)
  · apply (h.type _).bind
    intro type
    apply (Rule.Unnamed.eat "...").bind
    intro variadic
    exact (Rule.Unnamed.identifier _).bind fun _ => .pure _
  · apply (h.type _).bind
    intro type
    apply (Rule.Unnamed.identifier _).bind
    intro name
    exact unnamed_default?.bind fun _ => .pure _

theorem argumentList (missing : Cause) : (inner.argumentList missing).Unnamed := by
  apply (Rule.Unnamed.expect "(" missing).bind
  intro opening
  apply (Rule.Unnamed.eat ")").bind
  rintro (_ | closing)
  · apply (h.argument.separated ",").bind
    intro items
    exact (Rule.Unnamed.expect ")" _).bind fun _ => .pure _
  · exact .pure _

theorem extAttr : inner.extAttr.Unnamed := by
  have arguments (name : Token) (value : Option ExtAttr.Assignment) : Rule.Unnamed (do
      if ← sees (·.is "(") then
        return ExtAttr.mk name value (some (← inner.argumentList .attrNoArguments))
      return ExtAttr.mk name value none) := by
    apply (Rule.Unnamed.sees _).bind
    intro seen
    exact .ite ((h.argumentList _).bind fun _ => .pure _) (.pure _)
  apply (Rule.Unnamed.identifier _).bind
  intro name
  apply (Rule.Unnamed.eat "=").bind
  rintro (_ | assign)
  · exact arguments name none
  · exact unnamed_extAttrValue.bind fun value => arguments name (some ⟨assign, value⟩)

theorem extAttrs : inner.extAttrs.Unnamed := by
  apply (Rule.Unnamed.eat "[").bind
  rintro (_ | opening)
  · exact .pure none
  · apply (h.extAttr.separated ",").bind
    intro items
    exact (Rule.Unnamed.expect "]" _).bind fun _ => .pure _

omit h in
theorem longer (word : Token) : (longer word).Unnamed :=
  .ite ((Rule.Unnamed.eat "long").bind fun _ => .pure _) (.pure _)

omit h in
theorem namedType (first : Token) : (namedType first).Unnamed := by
  apply Rule.Unnamed.ite
  · apply (Rule.Unnamed.next _ _).bind
    intro second
    exact (longer second).bind fun _ => .pure _
  apply Rule.Unnamed.ite
  · exact (Rule.Unnamed.next _ _).bind fun _ => .pure _
  · exact (longer first).bind fun _ => .pure _

theorem singleType (missing : Cause) : (inner.singleType missing).Unnamed := by
  apply (Rule.Unnamed.identifier missing).bind
  intro first
  apply Rule.Unnamed.ite
  · apply (Rule.Unnamed.eat "<").bind
    rintro (_ | opening)
    · exact .pure _
    · apply ((h.type _).separated ",").bind
      intro arguments
      exact (Rule.Unnamed.expect ">" _).bind fun _ => .pure _
  · exact namedType first

theorem unionType (missing : Cause) (opening : Token) :
    (inner.unionType missing opening).Unnamed := by
  apply (h.type missing).bind
  intro first
  apply (Rule.Unnamed.eat "or").bind
  rintro (_ | separator)
  · exact .fail _
  · apply ((h.type _).separated "or").bind
    intro rest
    exact (Rule.Unnamed.expect ")" _).bind fun _ => .pure _

theorem idlType (missing : Cause) : (inner.idlType missing).Unnamed := by
  have nullable (attrs : Option ExtAttrList) (form : TypeForm) :
      Rule.Unnamed (do return IdlType.mk attrs form (← eat "?")) :=
    (Rule.Unnamed.eat "?").bind fun _ => .pure _
  apply h.extAttrs.bind
  intro attrs
  apply (Rule.Unnamed.eat "(").bind
  rintro (_ | opening)
  · exact (h.singleType missing).bind (nullable attrs)
  · exact (h.unionType missing opening).bind (nullable attrs)

end Unnamed

end Nested

/-! ### All levels -/

theorem nested_unnamed (depth : Nat) : (nested depth).Unnamed := by
  induction depth with
  | zero => exact ⟨fun _ => .fail _, .pure none⟩
  | succ depth ih => exact ⟨ih.idlType, ih.extAttrs⟩

theorem unnamed_idlType (missing : Cause) : (idlType missing).Unnamed :=
  .bounded fun depth => (nested_unnamed depth).idlType missing

theorem unnamed_extAttrs : extAttrs.Unnamed := .bounded fun depth => (nested_unnamed depth).extAttrs

end WebIdl.Grammar
