import WebIdl.Grammar.Nested
import WebIdl.Proofs.Grammar.Reads

/-!
# What the rules for types, arguments and extended attributes read

Each node holds the tokens it was read from, all of them and in the order of the source.

* `Nested.Sound` — so do the nodes of the two rules that the others recur on; every other rule
  keeps that (`Nested.Sound.extAttrs`, `Nested.Sound.idlType` and the lemmas before them).
* `nested_sound` — by induction on the depth, the rules of all depths are sound.
* `idlType_reads`, `extAttrs_reads`, `argumentList_reads` — and with them the rules without a depth.
-/

namespace WebIdl

theorem extAttrTokens_eq (items : Separated ExtAttr) :
    extAttrTokens items = items.tokens ExtAttr.tokens := by
  induction items with
  | last attr => simp [extAttrTokens, Separated.tokens]
  | cons attr separator rest ih => simp [extAttrTokens, Separated.tokens, ih]

theorem argumentTokens_eq (items : Separated Argument) :
    argumentTokens items = items.tokens Argument.tokens := by
  induction items with
  | last argument => simp [argumentTokens, Separated.tokens]
  | cons argument separator rest ih => simp [argumentTokens, Separated.tokens, ih]

theorem typeTokens_eq (types : Separated IdlType) :
    typeTokens types = types.tokens IdlType.tokens := by
  induction types with
  | last type => simp [typeTokens, Separated.tokens]
  | cons type separator rest ih => simp [typeTokens, Separated.tokens, ih]

namespace Grammar

open Rule

/-! ### Literals and values -/

theorem literal_reads (missing : Cause) :
    (literal missing).Reads fun l read => read = l.tokens := by
  refine (Reads.eat "[").bind ?_
  rintro (_ | opening) _ ⟨rfl, -⟩
  · refine (Reads.eat "\x7b").bind ?_
    rintro (_ | opening) _ ⟨rfl, -⟩
    · refine (Reads.next _ missing).mono ?_
      rintro l read ⟨token, htoken, rfl⟩
      obtain ⟨kind, -, rfl⟩ := Option.map_eq_some_iff.mp htoken
      rfl
    · refine (Reads.expect "\x7d" _).bind ?_
      rintro closing _ ⟨rfl, -⟩
      exact .pure rfl
  · refine (Reads.expect "]" _).bind ?_
    rintro closing _ ⟨rfl, -⟩
    exact .pure rfl

theorem default?_reads : default?.Reads fun d read => read = d.elim [] (·.tokens) := by
  refine (Reads.eat "=").bind ?_
  rintro (_ | assign) _ ⟨rfl, -⟩
  · exact .pure rfl
  · refine (literal_reads _).bind ?_
    rintro value _ rfl
    exact .pure (by simp [Default.tokens])

theorem tokens_of_scalarValue? {token : Token} {value : ExtAttr.Value}
    (h : scalarValue? token = some value) : value.tokens = [token] := by
  unfold scalarValue? at h
  split at h
  case h_5 =>
    split at h
    · cases h
      rfl
    · cases h
  all_goals cases h; try rfl

theorem extAttrValue_reads : extAttrValue.Reads fun value read => read = value.tokens := by
  refine (Reads.eat "(").bind ?_
  rintro (_ | opening) _ ⟨rfl, -⟩
  · refine (Reads.next _ _).mono ?_
    rintro value read ⟨token, htoken, rfl⟩
    exact (tokens_of_scalarValue? htoken).symm
  · have item : (need isListed .attrNoValue).Reads fun token read => read = [token] :=
      (Reads.need _ _).mono fun _ _ h => h.1
    refine (Reads.separated "," item).bind ?_
    rintro items _ rfl
    refine (Reads.expect ")" _).bind ?_
    rintro closing _ ⟨rfl, -⟩
    exact .pure (by simp [ExtAttr.Value.tokens])

/-! ### One level of nesting -/

namespace Nested

theorem longer_reads (word : Token) : (longer word).Reads fun rest read => read = rest := by
  unfold Nested.longer
  split
  · refine (Reads.eat "long").bind ?_
    rintro second _ ⟨rfl, -⟩
    exact .pure (by simp)
  · exact .pure rfl

theorem namedType_reads (first : Token) :
    (namedType first).Reads fun form read => first :: read = form.tokens := by
  unfold Nested.namedType
  split
  · refine (Reads.need _ _).bind ?_
    rintro second _ ⟨rfl, -⟩
    refine (longer_reads second).bind ?_
    rintro rest _ rfl
    exact .pure (by simp [TypeForm.tokens])
  · split
    · refine (Reads.need _ _).bind ?_
      rintro second _ ⟨rfl, -⟩
      exact .pure (by simp [TypeForm.tokens])
    · refine (longer_reads first).bind ?_
      rintro rest _ rfl
      exact .pure (by simp [TypeForm.tokens])

/-- What the two rules give holds the tokens that they read. -/
structure Sound (inner : Nested) : Prop where
  type (missing : Cause) : (inner.type missing).Reads fun type read => read = type.tokens
  attrs : inner.attrs.Reads fun attrs read => read = attrs.elim [] (·.tokens)

namespace Sound

variable {inner : Nested} (h : inner.Sound)

include h

theorem argument : inner.argument.Reads fun argument read => read = argument.tokens := by
  refine h.attrs.bind ?_
  rintro attrs _ rfl
  refine (Reads.eat "optional").bind ?_
  rintro (_ | keyword) _ ⟨rfl, -⟩
  · refine (h.type _).bind ?_
    rintro type _ rfl
    refine (Reads.eat "...").bind ?_
    rintro variadic _ ⟨rfl, -⟩
    refine (Reads.identifier _).bind ?_
    rintro name _ ⟨rfl, -⟩
    exact .pure (by cases attrs <;> simp [Argument.tokens])
  · refine (h.type _).bind ?_
    rintro type _ rfl
    refine (Reads.identifier _).bind ?_
    rintro name _ ⟨rfl, -⟩
    refine default?_reads.bind ?_
    rintro default _ rfl
    exact .pure (by cases attrs <;> simp [Argument.tokens])

theorem argumentList (missing : Cause) :
    (inner.argumentList missing).Reads fun arguments read => read = arguments.tokens := by
  refine (Reads.expect "(" missing).bind ?_
  rintro opening _ ⟨rfl, -⟩
  refine (Reads.eat ")").bind ?_
  rintro (_ | closing) _ ⟨rfl, -⟩
  · refine (Reads.separated "," h.argument).bind ?_
    rintro items _ rfl
    refine (Reads.expect ")" _).bind ?_
    rintro closing _ ⟨rfl, -⟩
    exact .pure (by simp [ArgumentList.tokens, argumentTokens_eq])
  · exact .pure (by simp [ArgumentList.tokens])

theorem extAttr : inner.extAttr.Reads fun attr read => read = attr.tokens := by
  have arguments (name : Token) (value : Option ExtAttr.Assignment) :
      Reads (do
        if ← sees (·.is "(") then
          return ExtAttr.mk name value (some (← inner.argumentList .attrNoArguments))
        return ExtAttr.mk name value none)
        fun attr read => name :: value.elim [] (·.tokens) ++ read = attr.tokens := by
    refine (Reads.sees _).bind ?_
    rintro (_ | _) _ rfl
    · exact .pure (by simp [ExtAttr.tokens])
    · refine (h.argumentList _).bind ?_
      rintro arguments _ rfl
      exact .pure (by simp [ExtAttr.tokens])
  refine (Reads.identifier _).bind ?_
  rintro name _ ⟨rfl, -⟩
  refine (Reads.eat "=").bind ?_
  rintro (_ | assign) _ ⟨rfl, -⟩
  · refine (arguments name none).mono ?_
    rintro attr read hread
    simpa using hread
  · refine extAttrValue_reads.bind ?_
    rintro value _ rfl
    refine (arguments name (some ⟨assign, value⟩)).mono ?_
    rintro attr read hread
    simpa [ExtAttr.Assignment.tokens] using hread

theorem extAttrs : inner.extAttrs.Reads fun attrs read => read = attrs.elim [] (·.tokens) := by
  refine (Reads.eat "[").bind ?_
  rintro (_ | opening) _ ⟨rfl, -⟩
  · exact .pure rfl
  · refine (Reads.separated "," h.extAttr).bind ?_
    rintro items _ rfl
    refine (Reads.expect "]" _).bind ?_
    rintro closing _ ⟨rfl, -⟩
    exact .pure (by simp [ExtAttrList.tokens, extAttrTokens_eq])

theorem singleType (missing : Cause) :
    (inner.singleType missing).Reads fun form read => read = form.tokens := by
  refine (Reads.identifier missing).bind ?_
  rintro first _ ⟨rfl, -⟩
  split
  · refine (Reads.eat "<").bind ?_
    rintro (_ | opening) _ ⟨rfl, -⟩
    · exact .pure (by simp [TypeForm.tokens])
    · refine (Reads.separated "," (h.type _)).bind ?_
      rintro arguments _ rfl
      refine (Reads.expect ">" _).bind ?_
      rintro closing _ ⟨rfl, -⟩
      exact .pure (by simp [TypeForm.tokens, typeTokens_eq])
  · exact namedType_reads first

theorem unionType (missing : Cause) (opening : Token) :
    (inner.unionType missing opening).Reads fun form read => opening :: read = form.tokens := by
  refine (h.type missing).bind ?_
  rintro first _ rfl
  refine (Reads.eat "or").bind ?_
  rintro (_ | separator) _ ⟨rfl, -⟩
  · exact .fail
  · refine (Reads.separated "or" (h.type _)).bind ?_
    rintro rest _ rfl
    refine (Reads.expect ")" _).bind ?_
    rintro closing _ ⟨rfl, -⟩
    exact .pure (by simp [TypeForm.tokens, typeTokens_eq])

theorem idlType (missing : Cause) :
    (inner.idlType missing).Reads fun type read => read = type.tokens := by
  have nullable (attrs : Option ExtAttrList) (form : TypeForm) :
      Reads (do return IdlType.mk attrs form (← eat "?"))
        fun type read => attrs.elim [] (·.tokens) ++ form.tokens ++ read = type.tokens := by
    refine (Reads.eat "?").bind ?_
    rintro mark _ ⟨rfl, -⟩
    exact .pure (by cases attrs <;> simp [IdlType.tokens])
  refine h.extAttrs.bind ?_
  rintro attrs _ rfl
  refine (Reads.eat "(").bind ?_
  rintro (_ | opening) _ ⟨rfl, -⟩
  · refine (h.singleType missing).bind ?_
    rintro form _ rfl
    refine (nullable attrs form).mono ?_
    rintro type read hread
    simpa using hread
  · refine (h.unionType missing opening).bind ?_
    rintro form read hform
    refine (nullable attrs form).mono ?_
    rintro type more hmore
    simpa [← hform] using hmore

end Sound

end Nested

/-! ### All levels -/

/-- Each level is sound because the level inside it is. -/
theorem nested_sound (depth : Nat) : (nested depth).Sound := by
  induction depth with
  | zero => exact ⟨fun _ => .fail, .pure rfl⟩
  | succ depth ih => exact ⟨ih.idlType, ih.extAttrs⟩

theorem idlType_reads (missing : Cause) :
    (idlType missing).Reads fun type read => read = type.tokens :=
  .bounded fun depth => (nested_sound depth).idlType missing

theorem extAttrs_reads : extAttrs.Reads fun attrs read => read = attrs.elim [] (·.tokens) :=
  .bounded fun depth => (nested_sound depth).extAttrs

theorem argumentList_reads (missing : Cause) :
    (argumentList missing).Reads fun arguments read => read = arguments.tokens :=
  .bounded fun depth => (nested_sound depth).argumentList missing

end Grammar

end WebIdl
