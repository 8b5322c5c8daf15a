import WebIdl.Grammar.Nested
import WebIdl.Proofs.Grammar.Parallel.Basic

/-!
# Types, arguments and extended attributes on tokens that look the same

* `Nested.Alike` — the two rules that the others recur on do the same on tokens that look the same;
  so do the rules written over them (`Nested.Alike.extAttrs`, `Nested.Alike.idlType`).
* `nested_alike` — by induction on the depth, and whatever the two depths are, as long as no more
  tokens are given than each has levels.
* `idlType_parallel`, `extAttrs_parallel`, `argumentList_parallel` — the rules without a depth.
-/

namespace WebIdl.Grammar

open Rule

variable {f : Token → Token} {n n' : Nat}

/-! ### Literals and values -/

theorem literalKind_eq (hf : Token.Keeps f) {t u : Token} (h : f t = f u) :
    Literal.Kind.ofToken? t = Literal.Kind.ofToken? u := by
  rw [Literal.Kind.ofToken?, Literal.Kind.ofToken?, hf.kind_eq h, hf.text_eq h]

theorem isListed_eq (hf : Token.Keeps f) {t u : Token} (h : f t = f u) :
    isListed t = isListed u := by
  rw [isListed, isListed, hf.kind_eq h]

theorem map_scalarValue?_eq (hf : Token.Keeps f) {t u : Token} (h : f t = f u) :
    (scalarValue? t).map (·.mapTokens f) = (scalarValue? u).map (·.mapTokens f) := by
  rw [scalarValue?, scalarValue?, ← hf.kind_eq h, ← hf.is_eq h]
  split <;> (try split) <;> simp [ExtAttr.Value.mapTokens, h]

theorem literal_parallel (hf : Token.Keeps f) (missing missing' : Cause) :
    Parallel f n n' 1 0 (Literal.mapTokens f) (literal missing) (literal missing') := by
  refine .eat hf (by decide) (fun t u htu => ?_) ?_
  · refine (Parallel.expect hf).bind (by decide) fun c c' hc => ?_
    exact .pure (by simp [Literal.mapTokens, htu, hc])
  refine .eat hf (by decide) (fun t u htu => ?_) ?_
  · refine (Parallel.expect hf).bind (by decide) fun c c' hc => ?_
    exact .pure (by simp [Literal.mapTokens, htu, hc])
  refine .next fun t u htu => ?_
  rw [literalKind_eq hf htu, Option.map_map, Option.map_map]
  congr 1
  funext kind
  simp [Literal.mapTokens, htu]

theorem default?_parallel (hf : Token.Keeps f) :
    Parallel f n n' 0 1 (Option.map (Default.mapTokens f)) default? default? := by
  refine .eat hf (by decide) (fun t u htu => ?_) (.pure rfl)
  refine (literal_parallel hf _ _).bind (by decide) fun l l' hl => ?_
  exact .pure (by simp [Default.mapTokens, htu, hl])

theorem extAttrValue_parallel (hf : Token.Keeps f) :
    Parallel f n n' 1 0 (ExtAttr.Value.mapTokens f) extAttrValue extAttrValue := by
  refine .eat hf (by decide) (fun t u htu => ?_) (.next fun t u htu => map_scalarValue?_eq hf htu)
  have item : Parallel f (n - 1) (n' - 1) 1 1 f (need isListed .attrNoValue)
      (need isListed .attrNoValue) :=
    (Parallel.need fun _ _ h => isListed_eq hf h).weaken (by decide) (by decide)
  refine .atLeast 2 (by decide) ?_
  refine (Parallel.separated hf item).bind (by decide) fun items items' hitems => ?_
  refine (Parallel.expect hf).bind (by decide) fun c c' hc => ?_
  exact .pure (by simp [ExtAttr.Value.mapTokens, htu, hitems, hc])

/-! ### One level of nesting -/

namespace Nested

theorem longer_parallel (hf : Token.Keeps f) {t u : Token} (h : f t = f u) :
    Parallel f n n' 0 1 (List.map f) (longer t) (longer u) := by
  refine .ite (by rw [hf.text_eq h]) ?_ (.pure rfl)
  exact .eat hf (by decide) (fun t u htu => .pure (by simp [htu])) (.pure rfl)

theorem namedType_parallel (hf : Token.Keeps f) {t u : Token} (h : f t = f u) :
    Parallel f n n' 0 1 (TypeForm.mapTokens f) (namedType t) (namedType u) := by
  refine .ite (by rw [hf.text_eq h]) ?_ (.ite (by rw [hf.text_eq h]) ?_ ?_)
  · have hword (t u : Token) (h : f t = f u) :
        (t.is "short" || t.is "long") = (u.is "short" || u.is "long") := by
      rw [hf.is_eq h, hf.is_eq h]
    refine (Parallel.need hword).bind (by decide) fun s s' hs => ?_
    refine (longer_parallel hf hs).bind (by decide) fun ws ws' hws => ?_
    exact .pure (by simp [TypeForm.mapTokens, h, hs, hws])
  · have hword (t u : Token) (h : f t = f u) :
        (t.is "float" || t.is "double") = (u.is "float" || u.is "double") := by
      rw [hf.is_eq h, hf.is_eq h]
    refine (Parallel.need hword).bind (by decide) fun s s' hs => ?_
    exact .pure (by simp [TypeForm.mapTokens, h, hs])
  · refine (longer_parallel hf h).bind (by decide) fun ws ws' hws => ?_
    exact .pure (by simp [TypeForm.mapTokens, h, hws])

/-- The rules of two levels do the same on tokens that look the same. -/
structure Alike (f : Token → Token) (n n' : Nat) (inner inner' : Nested) : Prop where
  type (missing missing' : Cause) :
    Parallel f n n' 1 1 (IdlType.mapTokens f) (inner.type missing) (inner'.type missing')
  attrs : Parallel f n n' 0 1 (Option.map (ExtAttrList.mapTokens f)) inner.attrs inner'.attrs

namespace Alike

variable {inner inner' : Nested} (hf : Token.Keeps f) (h : Alike f n n' inner inner')

include hf h

theorem argument :
    Parallel f n n' 1 1 (Argument.mapTokens f) inner.argument inner'.argument := by
  refine h.attrs.bind (by decide) fun attrs attrs' hattrs => ?_
  refine .eat hf (by decide) (fun t u htu => ?_) ?_
  · refine ((h.type _ _).shrink (by omega)).bind (by decide) fun type type' htype => ?_
    refine (Parallel.identifier hf).bind (by decide) fun name name' hname => ?_
    refine (default?_parallel hf).bind (by decide) fun d d' hd => ?_
    exact .pure (by simp [Argument.mapTokens_optional, hattrs, htu, htype, hname, hd])
  · refine ((h.type _ _).shrink (by omega)).bind (by decide) fun type type' htype => ?_
    have named {dots dots' : Option Token} (hdots : dots.map f = dots'.map f) {p p' : Nat} :
        Parallel f p p' 0 1 (Argument.mapTokens f)
          (do return .required attrs type dots (← identifier .argumentNoName))
          (do return .required attrs' type' dots' (← identifier .argumentNoName)) := by
      refine (Parallel.identifier hf).bind (by decide) fun name name' hname => ?_
      exact .pure (by simp [Argument.mapTokens_required, hattrs, htype, hdots, hname])
    exact .eat hf (by decide) (fun t u htu => named (by simp [htu])) (named rfl)

/-- The parenthesis leaves one token fewer for what is inside. -/
theorem argumentList (missing missing' : Cause) :
    Parallel f (n + 1) (n' + 1) 2 0 (ArgumentList.mapTokens f) (inner.argumentList missing)
      (inner'.argumentList missing') := by
  refine (Parallel.expect hf).bind (by decide) fun o o' ho => ?_
  refine .eat hf (by decide) (fun t u htu => ?_) ?_
  · exact .pure (by simp [ArgumentList.mapTokens_mk, ho, htu])
  · refine .atLeast 2 (by decide) ?_
    refine ((Parallel.separated hf (h.argument hf)).shrink (by omega)).bind (by decide) ?_
    intro items items' hitems
    refine (Parallel.expect hf).bind (by decide) fun c c' hc => ?_
    exact .pure (by simp [ArgumentList.mapTokens_mk, ho, hitems, hc])

theorem extAttr : Parallel f n n' 1 1 (ExtAttr.mapTokens f) inner.extAttr inner'.extAttr := by
  refine (Parallel.identifier hf).bind (by decide) fun name name' hname => ?_
  have arguments (value value' : Option ExtAttr.Assignment) {p p' : Nat} (hp : p ≤ n ∧ p' ≤ n')
      (hvalue : value.map (·.mapTokens f) = value'.map (·.mapTokens f)) :
      Parallel f p p' 0 1 (ExtAttr.mapTokens f)
        (do
          if ← sees (·.is "(") then
            return ExtAttr.mk name value (some (← inner.argumentList .attrNoArguments))
          return ExtAttr.mk name value none)
        (do
          if ← sees (·.is "(") then
            return ExtAttr.mk name' value' (some (← inner'.argumentList .attrNoArguments))
          return ExtAttr.mk name' value' none) := by
    refine .sees (fun _ _ htu => hf.is_eq htu _) (by decide) fun seen => ?_
    refine .ite Iff.rfl ?_ (.pure (by simp [ExtAttr.mapTokens_mk, hname, hvalue]))
    refine ((h.argumentList hf _ _).shrink (by omega)).bind (by decide) fun list list' hlist => ?_
    exact .pure (by simp [ExtAttr.mapTokens_mk, hname, hvalue, hlist])
  refine .eat hf (by decide) (fun t u htu => ?_) (arguments none none (by omega) rfl)
  refine (extAttrValue_parallel hf).bind (by decide) fun value value' hvalue => ?_
  exact arguments (some ⟨t, value⟩) (some ⟨u, value'⟩) (by omega)
    (by simp [ExtAttr.Assignment.mapTokens, htu, hvalue])

theorem extAttrs :
    Parallel f (n + 1) (n' + 1) 0 1 (Option.map (ExtAttrList.mapTokens f)) inner.extAttrs
      inner'.extAttrs := by
  refine .eat hf (by decide) (fun t u htu => ?_) (.pure rfl)
  refine ((Parallel.separated hf (h.extAttr hf)).shrink (by omega)).bind (by decide) ?_
  intro items items' hitems
  refine (Parallel.expect hf).bind (by decide) fun c c' hc => ?_
  exact .pure (by simp [ExtAttrList.mapTokens, mapExtAttrs_eq, htu, hitems, hc])

theorem singleType (missing missing' : Cause) :
    Parallel f (n + 1) (n' + 1) 1 1 (TypeForm.mapTokens f) (inner.singleType missing)
      (inner'.singleType missing') := by
  refine (Parallel.identifier hf).bind (by decide) fun first first' hfirst => ?_
  refine .ite (by rw [hf.text_eq hfirst]) ?_ (namedType_parallel hf hfirst)
  refine .eat hf (by decide) (fun t u htu => ?_) ?_
  · refine ((Parallel.separated hf (h.type _ _)).shrink (by omega)).bind (by decide) ?_
    intro types types' htypes
    refine (Parallel.expect hf).bind (by decide) fun c c' hc => ?_
    exact .pure (by simp [TypeForm.mapTokens, mapTypes_eq, hfirst, htu, htypes, hc])
  · exact .pure (by simp [TypeForm.mapTokens, hfirst])

theorem unionType (missing missing' : Cause) {opening opening' : Token}
    (hopening : f opening = f opening') :
    Parallel f n n' 0 1 (TypeForm.mapTokens f) (inner.unionType missing opening)
      (inner'.unionType missing' opening') := by
  refine (h.type _ _).bind (by decide) fun first first' hfirst => ?_
  refine .eat hf (by decide) (fun t u htu => ?_) .fail
  refine ((Parallel.separated hf (h.type _ _)).shrink (by omega)).bind (by decide) ?_
  intro types types' htypes
  refine (Parallel.expect hf).bind (by decide) fun c c' hc => ?_
  exact .pure (by simp [TypeForm.mapTokens, mapTypes_eq, hopening, hfirst, htu, htypes, hc])

theorem idlType (missing missing' : Cause) :
    Parallel f (n + 1) (n' + 1) 1 1 (IdlType.mapTokens f) (inner.idlType missing)
      (inner'.idlType missing') := by
  refine (h.extAttrs hf).bind (by decide) fun attrs attrs' hattrs => ?_
  have nullable {p p' : Nat} {form form' : TypeForm}
      (hform : form.mapTokens f = form'.mapTokens f) :
      Parallel f p p' 0 1 (IdlType.mapTokens f)
        (do return IdlType.mk attrs form (← Rule.eat "?"))
        (do return IdlType.mk attrs' form' (← Rule.eat "?")) :=
    .eat hf (by decide) (fun t u htu => .pure (by simp [IdlType.mapTokens_mk, hattrs, hform, htu]))
      (.pure (by simp [IdlType.mapTokens_mk, hattrs, hform]))
  refine .eat hf (by decide) (fun t u htu => ?_) ?_
  · refine ((h.unionType hf missing missing' htu).shrink (by omega)).bind (by decide) ?_
    exact fun form form' hform => nullable hform
  · refine ((h.singleType hf missing missing').shrink (by omega)).bind (by decide) ?_
    exact fun form form' hform => nullable hform

end Alike

end Nested

/-! ### All levels -/

theorem nested_attrs_nil (depth : Nat) : (nested depth).attrs [] = .ok (none, []) := by
  cases depth <;> rfl

theorem nested_alike (hf : Token.Keeps f) (n n' : Nat) :
    Nested.Alike f n n' (nested n) (nested n') := by
  induction n generalizing n' with
  | zero =>
    refine ⟨fun _ _ => .fail, ?_⟩
    have hnone : Parallel f 0 n' 0 1 (Option.map (ExtAttrList.mapTokens f)) (nested 0).attrs
        (nested 0).attrs := .pure rfl
    exact hnone.of_nil (.inl rfl) rfl (nested_attrs_nil n') rfl
  | succ n ih =>
    cases n' with
    | zero =>
      have h := ih 0
      refine ⟨fun missing _ => ?_, ?_⟩
      · exact ((h.idlType hf missing missing).shrink (by omega)).of_no_room (.inr rfl) (by decide)
      · exact ((h.extAttrs hf).shrink (by omega)).of_nil (.inr rfl) rfl rfl rfl
    | succ n' => exact ⟨(ih n').idlType hf, (ih n').extAttrs hf⟩

theorem idlType_parallel (hf : Token.Keeps f) (missing missing' : Cause) :
    Parallel f n n' 1 1 (IdlType.mapTokens f) (idlType missing) (idlType missing') :=
  .bounded fun b b' _ _ => ((nested_alike hf b b').idlType hf missing missing').shrink (by omega)

theorem extAttrs_parallel (hf : Token.Keeps f) :
    Parallel f n n' 0 1 (Option.map (ExtAttrList.mapTokens f)) extAttrs extAttrs :=
  .bounded fun b b' _ _ => ((nested_alike hf b b').extAttrs hf).shrink (by omega)

theorem argumentList_parallel (hf : Token.Keeps f) (missing missing' : Cause) :
    Parallel f n n' 2 0 (ArgumentList.mapTokens f) (argumentList missing)
      (argumentList missing') :=
  .bounded fun b b' _ _ =>
    ((nested_alike hf b b').argumentList hf missing missing').shrink (by omega)

end WebIdl.Grammar
