import WebIdl.Proofs.Grammar.Accept.Basic
import WebIdl.Proofs.Grammar.Nested

/-!
# Types, arguments and extended attributes are read back

A well-formed node is read back from its tokens, as long as what follows does not go on with it.

* `Rule.TypeEnds` — what follows a type is no mark or word that would belong to it.
* `Nested.Accepts` — the two rules that the others recur on read back nodes of a certain size; so do
  the rules written over them (`Nested.Accepts.extAttrs`, `Nested.Accepts.idlType`).
* `nested_accepts` — by induction on the depth, nodes with no more tokens than there are levels.
* `idlType_accepts`, `extAttrs_accepts`, `argumentList_accepts` — the rules without a depth.
-/

namespace WebIdl

/-! ### First tokens -/

/-- The words that a type may start with although the grammar looks for them elsewhere. -/
def TypeForm.openings : List String := ["unsigned", "unrestricted", "long"]

def TypeForm.isUnion : TypeForm → Bool
  | .union .. => true
  | _ => false

theorem TypeForm.tokens_eq_cons (form : TypeForm) : ∃ more, form.tokens = form.first :: more := by
  cases form <;> simp [tokens, first]

theorem TypeForm.isWord_of_isBuiltin {first : Token} {rest : List Token}
    (h : isBuiltin first rest) :
    first.isWord "long" ∨ first.isWord "unsigned" ∨ first.isWord "unrestricted" := by
  unfold isBuiltin at h
  split at h
  · exact .inl h
  · simp only [Bool.or_eq_true, Bool.and_eq_true] at h
    rcases h with (h | h) | h
    · exact .inl h.1
    · exact .inr (.inl h.1)
    · exact .inr (.inr h.1)
  · simp only [Bool.and_eq_true] at h
    exact .inr (.inl h.1.1)
  · cases h

theorem isGeneric_of_mem {word : String} (h : word ∈ Token.marks ++ Token.keywords) :
    Vocabulary.isGeneric word = false := by
  have : ∀ word ∈ Token.marks ++ Token.keywords, Vocabulary.isGeneric word = false := by decide
  exact this word h

/-- A type does not start with a word that the grammar looks for in its place. -/
theorem TypeForm.first_is {form : TypeForm} (h : form.wellFormed) {word : String}
    (hword : word ∈ Token.marks ++ Token.keywords) (hopening : word ∉ openings)
    (hunion : word = "(" → form.isUnion = false) : form.first.is word = false := by
  have hne {opening : String} (hmem : opening ∈ openings) : opening ≠ word :=
    fun heq => hopening (heq ▸ hmem)
  cases form with
  | named first rest =>
    simp only [wellFormed, Bool.or_eq_true, Bool.and_eq_true] at h
    rcases h with ⟨hname, -⟩ | hbuiltin
    · exact Token.isName_is hname hword
    · rcases isWord_of_isBuiltin hbuiltin with h | h | h
      · exact Token.isWord_is h (hne (by simp [openings]))
      · exact Token.isWord_is h (hne (by simp [openings]))
      · exact Token.isWord_is h (hne (by simp [openings]))
  | generic name opening arguments closing =>
    simp only [wellFormed, Bool.and_eq_true] at h
    have hgeneric : Vocabulary.isGeneric name.text := h.1.1.1.2
    rw [Bool.eq_false_iff]
    intro his
    have htext : name.text = word := Token.text_of_is his
    rw [htext, isGeneric_of_mem hword] at hgeneric
    cases hgeneric
  | union opening first separator rest closing =>
    simp only [wellFormed, Bool.and_eq_true] at h
    exact Token.isMark_is h.1.1.1.1 fun heq => nomatch hunion heq.symm

theorem ExtAttrList.tokens_eq_cons (attrs : ExtAttrList) :
    ∃ more, attrs.tokens = attrs.opening :: more := by
  cases attrs
  simp [tokens, opening]

theorem ExtAttrList.isMark_opening {attrs : ExtAttrList} (h : attrs.wellFormed) :
    attrs.opening.isMark "[" := by
  cases attrs
  simp only [wellFormed, Bool.and_eq_true] at h
  exact h.1.1

theorem ExtAttr.wellFormed_mk {name : Token} {assignment : Option ExtAttr.Assignment}
    {arguments : Option ArgumentList} : (ExtAttr.mk name assignment arguments).wellFormed ↔
      name.kind = .identifier ∧ (∀ a ∈ assignment, a.wellFormed) ∧
        ∀ list ∈ arguments, list.wellFormed := by
  cases assignment <;> cases arguments <;> simp [ExtAttr.wellFormed, and_assoc]

theorem ExtAttr.tokens_mk (name : Token) (assignment : Option ExtAttr.Assignment)
    (arguments : Option ArgumentList) : (ExtAttr.mk name assignment arguments).tokens =
      name :: (assignment.elim [] (·.tokens) ++ arguments.elim [] (·.tokens)) := by
  cases arguments <;> simp [ExtAttr.tokens]

theorem ArgumentList.exists_opening {arguments : ArgumentList} (h : arguments.wellFormed) :
    ∃ opening more, arguments.tokens = opening :: more ∧ opening.isMark "(" := by
  obtain ⟨opening, _ | items, closing⟩ := arguments
  · simp only [wellFormed, Bool.and_eq_true] at h
    exact ⟨opening, _, by rw [tokens], h.1⟩
  · simp only [wellFormed, Bool.and_eq_true] at h
    exact ⟨opening, _, by rw [tokens], h.1.1⟩

theorem Argument.wellFormed_required {attrs : Option ExtAttrList} {type : IdlType}
    {variadic : Option Token} {name : Token} :
    (Argument.required attrs type variadic name).wellFormed ↔
      (∀ list ∈ attrs, list.wellFormed) ∧ (attrs = none → type.attrs = none) ∧ type.wellFormed ∧
        (∀ dots ∈ variadic, dots.isMark "...") ∧ name.isName := by
  cases attrs <;> cases variadic <;> simp [Argument.wellFormed, and_assoc]

theorem Argument.tokens_required (attrs : Option ExtAttrList) (type : IdlType)
    (variadic : Option Token) (name : Token) :
    (Argument.required attrs type variadic name).tokens =
      attrs.elim [] (·.tokens) ++ (type.tokens ++ (variadic.toList ++ [name])) := by
  cases attrs <;> simp [Argument.tokens]

theorem Argument.wellFormed_optional {attrs : Option ExtAttrList} {keyword : Token}
    {type : IdlType} {name : Token} {default : Option Default} :
    (Argument.optional attrs keyword type name default).wellFormed ↔
      (∀ list ∈ attrs, list.wellFormed) ∧ keyword.isWord "optional" ∧ type.wellFormed ∧
        name.isName ∧ default.all (·.wellFormed) := by
  cases attrs <;> simp [Argument.wellFormed, and_assoc]

theorem Argument.tokens_optional (attrs : Option ExtAttrList) (keyword : Token) (type : IdlType)
    (name : Token) (default : Option Default) :
    (Argument.optional attrs keyword type name default).tokens =
      attrs.elim [] (·.tokens) ++
        keyword :: (type.tokens ++ name :: default.elim [] (·.tokens)) := by
  cases attrs <;> simp [Argument.tokens]

theorem IdlType.wellFormed_mk {attrs : Option ExtAttrList} {form : TypeForm}
    {nullable : Option Token} : (IdlType.mk attrs form nullable).wellFormed ↔
      (∀ list ∈ attrs, list.wellFormed) ∧ form.wellFormed ∧ ∀ mark ∈ nullable, mark.isMark "?" := by
  cases attrs <;> cases nullable <;> simp [IdlType.wellFormed, and_assoc]

theorem IdlType.tokens_mk (attrs : Option ExtAttrList) (form : TypeForm)
    (nullable : Option Token) : (IdlType.mk attrs form nullable).tokens =
      attrs.elim [] (·.tokens) ++ (form.tokens ++ nullable.toList) := by
  cases attrs <;> simp [IdlType.tokens]

theorem IdlType.tokens_eq_cons (type : IdlType) : ∃ more, type.tokens = type.first :: more := by
  obtain ⟨_ | attrs, form, nullable⟩ := type
  · obtain ⟨more, hmore⟩ := form.tokens_eq_cons
    simp [tokens, first, hmore, IdlType.attrs, IdlType.form]
  · obtain ⟨more, hmore⟩ := attrs.tokens_eq_cons
    simp [tokens, first, hmore, IdlType.attrs]

theorem IdlType.first_is {type : IdlType} (h : type.wellFormed) {word : String}
    (hword : word ∈ Token.marks ++ Token.keywords) (hopening : word ∉ TypeForm.openings)
    (hunion : word ≠ "(") (hattrs : word = "[" → type.attrs = none) :
    type.first.is word = false := by
  obtain ⟨_ | attrs, form, nullable⟩ := type
  · exact TypeForm.first_is (wellFormed_mk.mp h).2.1 hword hopening fun heq => absurd heq hunion
  · have hopen := ExtAttrList.isMark_opening ((wellFormed_mk.mp h).1 attrs rfl)
    exact Token.isMark_is hopen fun heq => nomatch hattrs heq.symm

namespace Grammar

open Rule

variable {rest : List Token}

namespace Rule

/-- What follows a type does not belong to it. -/
structure TypeEnds (rest : List Token) : Prop where
  question : Unseen "?" rest
  angle : Unseen "<" rest
  long : Unseen "long" rest

theorem TypeEnds.of_is {token : Token} {word : String} (h : token.is word)
    (hne : word ≠ "?" ∧ word ≠ "<" ∧ word ≠ "long") : TypeEnds (token :: rest) :=
  ⟨unseen_cons.mpr (Token.is_eq_false_of_is h hne.1),
    unseen_cons.mpr (Token.is_eq_false_of_is h hne.2.1),
    unseen_cons.mpr (Token.is_eq_false_of_is h hne.2.2)⟩

theorem TypeEnds.of_isMark {token : Token} {word : String} (h : token.isMark word)
    (hne : word ≠ "?" ∧ word ≠ "<" ∧ word ≠ "long") : TypeEnds (token :: rest) :=
  .of_is (Token.is_of_isMark h) hne

theorem TypeEnds.of_isName {token : Token} (h : token.isName) : TypeEnds (token :: rest) :=
  ⟨unseen_of_isName h (by decide), unseen_of_isName h (by decide),
    unseen_of_isName h (by decide)⟩

end Rule

theorem unseen_type {type : IdlType} (h : type.wellFormed) {word : String}
    (hword : word ∈ Token.marks ++ Token.keywords) (hopening : word ∉ TypeForm.openings)
    (hunion : word ≠ "(") (hattrs : word = "[" → type.attrs = none) :
    Unseen word (type.tokens ++ rest) := by
  obtain ⟨more, hmore⟩ := type.tokens_eq_cons
  rw [hmore]
  exact unseen_cons.mpr (type.first_is h hword hopening hunion hattrs)

section Arguments

variable {arguments : ArgumentList} (h : arguments.wellFormed)

include h

theorem sees_arguments : sees (·.is "(") (arguments.tokens ++ rest) =
    .ok (true, arguments.tokens ++ rest) := by
  obtain ⟨opening, more, hmore, hopening⟩ := ArgumentList.exists_opening h
  rw [hmore]
  exact sees_of_true (Token.is_of_isMark hopening)

theorem unseen_arguments {word : String} (hne : "(" ≠ word) :
    Unseen word (arguments.tokens ++ rest) := by
  obtain ⟨opening, more, hmore, hopening⟩ := ArgumentList.exists_opening h
  rw [hmore]
  exact unseen_of_isMark hopening hne

theorem typeEnds_arguments : TypeEnds (arguments.tokens ++ rest) :=
  ⟨unseen_arguments h (by decide), unseen_arguments h (by decide), unseen_arguments h (by decide)⟩

end Arguments

/-- An argument does not start with the parenthesis that would close the list. -/
theorem unseen_argument {argument : Argument} (h : argument.wellFormed) :
    Unseen ")" (argument.tokens ++ rest) := by
  have hlist (attrs : ExtAttrList) (hattrs : attrs.wellFormed) (more : List Token) :
      Unseen ")" (attrs.tokens ++ more) := by
    obtain ⟨others, hothers⟩ := attrs.tokens_eq_cons
    rw [hothers]
    exact unseen_of_isMark (ExtAttrList.isMark_opening hattrs) (by decide)
  cases argument with
  | required attrs type variadic name =>
    obtain ⟨hattrs, -, htype, -⟩ := Argument.wellFormed_required.mp h
    rw [Argument.tokens_required]
    cases attrs with
    | none =>
      rw [Option.elim_none, List.nil_append, List.append_assoc]
      exact unseen_type htype (by decide) (by decide) (by decide) nofun
    | some attrs =>
      rw [List.append_assoc]
      exact hlist attrs (hattrs attrs rfl) _
  | optional attrs keyword type name default =>
    obtain ⟨hattrs, hkeyword, -⟩ := Argument.wellFormed_optional.mp h
    rw [Argument.tokens_optional]
    cases attrs with
    | none => exact unseen_of_isWord hkeyword (by decide)
    | some attrs =>
      rw [List.append_assoc]
      exact hlist attrs (hattrs attrs rfl) _

/-! ### Literals and values -/

theorem literal_accepts {l : Literal} (h : l.wellFormed) (missing : Cause) :
    literal missing (l.tokens ++ rest) = .ok (l, rest) := by
  cases l with
  | scalar kind token =>
    simp only [Literal.wellFormed, Bool.and_eq_true, beq_iff_eq] at h
    obtain ⟨hkind, hplain⟩ := h
    refine (bind_of_ok (eat_of_unseen (unseen_of_isPlain hplain (by decide)))).trans ?_
    refine (bind_of_ok (eat_of_unseen (unseen_of_isPlain hplain (by decide)))).trans ?_
    exact next_of_some (by simp [hkind])
  | emptySequence opening closing =>
    simp only [Literal.wellFormed, Bool.and_eq_true] at h
    refine (bind_of_ok (eat_of_is (Token.is_of_isMark h.1))).trans ?_
    exact (bind_of_ok (expect_of_is (Token.is_of_isMark h.2))).trans rfl
  | emptyDictionary opening closing =>
    simp only [Literal.wellFormed, Bool.and_eq_true] at h
    refine (bind_of_ok (eat_of_unseen (unseen_of_isMark h.1 (by decide)))).trans ?_
    refine (bind_of_ok (eat_of_is (Token.is_of_isMark h.1))).trans ?_
    exact (bind_of_ok (expect_of_is (Token.is_of_isMark h.2))).trans rfl

theorem default?_accepts {default : Option Default} (h : default.all (·.wellFormed))
    (hrest : Unseen "=" rest) :
    default? (default.elim [] (·.tokens) ++ rest) = .ok (default, rest) := by
  cases default with
  | none => exact (bind_of_ok (eat_of_unseen hrest)).trans rfl
  | some default =>
    simp only [Option.all_some, Default.wellFormed, Bool.and_eq_true] at h
    refine (bind_of_ok (eat_of_is (Token.is_of_isMark h.1))).trans ?_
    exact (bind_of_ok (literal_accepts h.2 _)).trans rfl

theorem scalarValue?_of_fits {kind : ExtAttr.ValueKind} {token : Token} (h : kind.fits token) :
    scalarValue? token = some (.scalar kind token) ∧ token.is "(" = false := by
  cases kind with
  | string =>
    have hkind : token.kind = .string := by simpa [ExtAttr.ValueKind.fits] using h
    simp [scalarValue?, hkind, Token.is]
  | wildcard =>
    have hstar : token.isMark "*" := h
    exact ⟨by simp [scalarValue?, Token.kind_of_isMark hstar, Token.is_of_isMark hstar],
      Token.isMark_is hstar (by decide)⟩
  | identifier | integer | decimal =>
    simp only [ExtAttr.ValueKind.fits, Bool.and_eq_true, beq_iff_eq] at h
    exact ⟨by simp [scalarValue?, h.1], Token.isPlain_is h.2 (by decide)⟩

theorem extAttrValue_accepts {value : ExtAttr.Value} (h : value.wellFormed) :
    extAttrValue (value.tokens ++ rest) = .ok (value, rest) := by
  cases value with
  | scalar kind token =>
    obtain ⟨hvalue, hopening⟩ := scalarValue?_of_fits h
    refine (bind_of_ok (eat_of_unseen (unseen_cons.mpr hopening))).trans ?_
    exact next_of_some hvalue
  | list opening items closing =>
    simp only [ExtAttr.Value.wellFormed, Bool.and_eq_true] at h
    obtain ⟨⟨hopening, hitems⟩, hclosing⟩ := h
    have hread : separated (need isListed .attrNoValue) ","
        (items.tokens ([·]) ++ closing :: rest) = .ok (items, closing :: rest) :=
      separated_accepts (fun _ => True) (fun a _ ha rest _ => need_of_true ha)
        (fun _ => Token.is_of_isMark) (fun _ _ _ => trivial) hitems trivial
        (unseen_of_isMark hclosing (by decide))
    simp only [ExtAttr.Value.tokens, List.cons_append, List.append_assoc, List.nil_append]
    refine (bind_of_ok (eat_of_is (Token.is_of_isMark hopening))).trans ?_
    refine (bind_of_ok hread).trans ?_
    exact (bind_of_ok (expect_of_is (Token.is_of_isMark hclosing))).trans rfl

/-! ### One level of nesting -/

namespace Nested

theorem longer_of_ne {word : Token} (h : word.text ≠ "long") :
    longer word rest = .ok ([], rest) := by
  simp [longer, h]
  rfl

theorem longer_of_eq {word second : Token} (h : word.text = "long") (hsecond : second.is "long") :
    longer word (second :: rest) = .ok ([second], rest) := by
  simp only [longer, h, beq_self_eq_true, if_true]
  exact (bind_of_ok (eat_of_is hsecond)).trans rfl

theorem longer_of_unseen {word : Token} (h : Unseen "long" rest) :
    longer word rest = .ok ([], rest) := by
  by_cases hlong : word.text = "long"
  · simp only [longer, hlong, beq_self_eq_true, if_true]
    exact (bind_of_ok (eat_of_unseen h)).trans rfl
  · exact longer_of_ne hlong

/-- A type that is neither unsigned nor unrestricted: only `long` may go on. -/
theorem namedType_of_ne (words : List Token) {first : Token}
    (hne : first.text ≠ "unsigned" ∧ first.text ≠ "unrestricted")
    (hlonger : longer first (words ++ rest) = .ok (words, rest)) :
    namedType first (words ++ rest) = .ok (.named first words, rest) := by
  rw [namedType, if_neg (by simp [hne.1]), if_neg (by simp [hne.2])]
  exact (bind_of_ok hlonger).trans rfl

theorem namedType_unsigned (words : List Token) {first second : Token}
    (hfirst : first.text = "unsigned") (hsecond : second.is "short" || second.is "long")
    (hlonger : longer second (words ++ rest) = .ok (words, rest)) :
    namedType first (second :: words ++ rest) = .ok (.named first (second :: words), rest) := by
  rw [namedType, if_pos (by simp [hfirst])]
  refine (bind_of_ok (need_of_true hsecond)).trans ?_
  exact (bind_of_ok hlonger).trans rfl

theorem namedType_of_isBuiltin {first : Token} {words : List Token}
    (h : TypeForm.isBuiltin first words) (hrest : Unseen "long" rest) :
    namedType first (words ++ rest) = .ok (.named first words, rest) := by
  unfold TypeForm.isBuiltin at h
  split at h
  · have hfirst := Token.text_of_is (Token.is_of_isWord h)
    exact namedType_of_ne [] (by simp [hfirst]) (longer_of_unseen hrest)
  · rename_i second
    simp only [Bool.or_eq_true, Bool.and_eq_true] at h
    rcases h with (⟨hfirst, hsecond⟩ | ⟨hfirst, hsecond⟩) | ⟨hfirst, hsecond⟩
    · have hfirst := Token.text_of_is (Token.is_of_isWord hfirst)
      exact namedType_of_ne [second] (by simp [hfirst])
        (longer_of_eq hfirst (Token.is_of_isWord hsecond))
    · refine namedType_unsigned [] (Token.text_of_is (Token.is_of_isWord hfirst)) ?_
        (longer_of_unseen hrest)
      rcases hsecond with h | h <;> simp [Token.is_of_isWord h]
    · have hfirst := Token.text_of_is (Token.is_of_isWord hfirst)
      rw [namedType, if_neg (by simp [hfirst]), if_pos (by simp [hfirst])]
      refine (bind_of_ok (need_of_true ?_)).trans rfl
      rcases hsecond with h | h <;> simp [Token.is_of_isWord h]
  · rename_i second third
    simp only [Bool.and_eq_true] at h
    obtain ⟨⟨hfirst, hsecond⟩, hthird⟩ := h
    have hsecond := Token.is_of_isWord hsecond
    exact namedType_unsigned [third] (Token.text_of_is (Token.is_of_isWord hfirst))
      (by simp [hsecond]) (longer_of_eq (Token.text_of_is hsecond) (Token.is_of_isWord hthird))
  · cases h

theorem namedType_of_isName {first : Token} (h : first.isName) :
    namedType first rest = .ok (.named first [], rest) := by
  refine namedType_of_ne [] ⟨?_, ?_⟩ (longer_of_ne ?_)
  · exact Token.text_ne_of_isName h (by decide)
  · exact Token.text_ne_of_isName h (by decide)
  · exact Token.text_ne_of_isName h (by decide)

/-- The two rules read back well-formed nodes of `n` tokens or fewer. -/
structure Accepts (n : Nat) (inner : Nested) : Prop where
  type {type : IdlType} {rest : List Token} (missing : Cause) : type.wellFormed →
    type.tokens.length ≤ n → TypeEnds rest →
    inner.type missing (type.tokens ++ rest) = .ok (type, rest)
  attrs {attrs : ExtAttrList} {rest : List Token} : attrs.wellFormed → attrs.tokens.length ≤ n →
    inner.attrs (attrs.tokens ++ rest) = .ok (some attrs, rest)
  noAttrs {rest : List Token} : Unseen "[" rest → inner.attrs rest = .ok (none, rest)

namespace Accepts

variable {inner : Nested} {n : Nat} (h : inner.Accepts n)

include h

/-- What stands in front of an argument: extended attributes or none. -/
theorem someAttrs {attrs : Option ExtAttrList} (hattrs : ∀ list ∈ attrs, list.wellFormed)
    (hlength : (attrs.elim [] (·.tokens)).length ≤ n) (hnone : attrs = none → Unseen "[" rest) :
    inner.attrs (attrs.elim [] (·.tokens) ++ rest) = .ok (attrs, rest) := by
  cases attrs with
  | none => exact h.noAttrs (hnone rfl)
  | some list => exact h.attrs (hattrs list rfl) hlength

theorem argument {argument : Argument} (hwf : argument.wellFormed)
    (hlength : argument.tokens.length ≤ n) (hrest : Unseen "=" rest) :
    inner.argument (argument.tokens ++ rest) = .ok (argument, rest) := by
  cases argument with
  | required attrs type variadic name =>
    obtain ⟨hattrs, hlead, htype, hvariadic, hname⟩ := Argument.wellFormed_required.mp hwf
    simp only [Argument.tokens_required, List.append_assoc] at hlength ⊢
    simp only [List.length_append] at hlength
    refine (bind_of_ok (h.someAttrs hattrs (by omega) fun hnone => ?_)).trans ?_
    · exact unseen_type htype (by decide) (by decide) (by decide) fun _ => hlead hnone
    refine (bind_of_ok (eat_of_unseen ?_)).trans ?_
    · exact unseen_type htype (by decide) (by decide) (by decide) nofun
    have hread : identifier .argumentNoName (name :: rest) = .ok (name, rest) :=
      identifier_of_kind (Token.kind_of_isName hname)
    cases variadic with
    | none =>
      refine (bind_of_ok (h.type _ htype (by omega) (.of_isName hname))).trans ?_
      refine (bind_of_ok (eat_of_unseen (unseen_of_isName hname (by decide)))).trans ?_
      exact (bind_of_ok hread).trans rfl
    | some dots =>
      have hdots := hvariadic dots rfl
      refine (bind_of_ok (h.type _ htype (by omega) (.of_isMark hdots (by decide)))).trans ?_
      refine (bind_of_ok (eat_of_is (Token.is_of_isMark hdots))).trans ?_
      exact (bind_of_ok hread).trans rfl
  | optional attrs keyword type name default =>
    obtain ⟨hattrs, hkeyword, htype, hname, hdefault⟩ := Argument.wellFormed_optional.mp hwf
    simp only [Argument.tokens_optional, List.append_assoc, List.cons_append] at hlength ⊢
    simp only [List.length_append, List.length_cons] at hlength
    refine (bind_of_ok (h.someAttrs hattrs (by omega) fun _ => unseen_cons.mpr ?_)).trans ?_
    · exact Token.isWord_is hkeyword (by decide)
    refine (bind_of_ok (eat_of_is (Token.is_of_isWord hkeyword))).trans ?_
    refine (bind_of_ok (h.type _ htype (by omega) (.of_isName hname))).trans ?_
    refine (bind_of_ok (identifier_of_kind (Token.kind_of_isName hname))).trans ?_
    exact (bind_of_ok (default?_accepts hdefault hrest)).trans rfl

/-- The parenthesis leaves one token fewer for what is inside. -/
theorem argumentList {arguments : ArgumentList} (hwf : arguments.wellFormed)
    (hlength : arguments.tokens.length ≤ n + 1) (missing : Cause) :
    inner.argumentList missing (arguments.tokens ++ rest) = .ok (arguments, rest) := by
  obtain ⟨opening, _ | items, closing⟩ := arguments
  · simp only [ArgumentList.wellFormed, Bool.and_eq_true] at hwf
    refine (bind_of_ok (expect_of_is (Token.is_of_isMark hwf.1))).trans ?_
    exact (bind_of_ok (eat_of_is (Token.is_of_isMark hwf.2))).trans rfl
  · simp only [ArgumentList.wellFormed, Bool.and_eq_true, argumentsWellFormed_eq] at hwf
    obtain ⟨⟨hopening, hitems⟩, hclosing⟩ := hwf
    simp only [ArgumentList.tokens, argumentTokens_eq, List.length_cons, List.length_append,
      List.cons_append, List.append_assoc, List.nil_append] at hlength ⊢
    have hread : separated inner.argument "," (items.tokens Argument.tokens ++ closing :: rest) =
        .ok (items, closing :: rest) :=
      separated_accepts (Unseen "=")
        (fun a ha hok rest hends => h.argument hok
          (by have := Separated.length_le_of_mem Argument.tokens ha; omega) hends)
        (fun _ => Token.is_of_isMark) (fun _ _ hsep => unseen_of_isMark hsep (by decide)) hitems
        (unseen_of_isMark hclosing (by decide)) (unseen_of_isMark hclosing (by decide))
    refine (bind_of_ok (expect_of_is (Token.is_of_isMark hopening))).trans ?_
    refine (bind_of_ok (eat_of_unseen ?_)).trans ?_
    · cases items with
      | last a => exact unseen_argument hitems
      | cons a separator others =>
        simp only [Separated.all, Bool.and_eq_true] at hitems
        rw [Separated.tokens, List.append_assoc]
        exact unseen_argument hitems.1.1
    refine (bind_of_ok hread).trans ?_
    exact (bind_of_ok (expect_of_is (Token.is_of_isMark hclosing))).trans rfl

theorem extAttr {attr : ExtAttr} (hwf : attr.wellFormed) (hlength : attr.tokens.length ≤ n)
    (hassign : Unseen "=" rest) (hopening : Unseen "(" rest) :
    inner.extAttr (attr.tokens ++ rest) = .ok (attr, rest) := by
  obtain ⟨name, assignment, arguments⟩ := attr
  obtain ⟨hname, hassignment, harguments⟩ := ExtAttr.wellFormed_mk.mp hwf
  simp only [ExtAttr.tokens_mk, List.length_cons, List.length_append, List.cons_append,
    List.append_assoc] at hlength ⊢
  -- once the value has been read, arguments follow or none
  have hafter (value : Option ExtAttr.Assignment) : (do
        if ← sees (·.is "(") then
          return ExtAttr.mk name value (some (← inner.argumentList .attrNoArguments))
        return ExtAttr.mk name value none : Rule ExtAttr)
      (arguments.elim [] (·.tokens) ++ rest) = .ok (.mk name value arguments, rest) := by
    cases arguments with
    | none => exact (bind_of_ok (sees_of_unseen hopening)).trans rfl
    | some arguments =>
      have hlist := harguments arguments rfl
      simp only [Option.elim_some] at hlength
      refine (bind_of_ok (sees_arguments hlist)).trans ?_
      exact (bind_of_ok (h.argumentList hlist (by omega) _)).trans rfl
  refine (bind_of_ok (identifier_of_kind hname)).trans ?_
  cases assignment with
  | none =>
    refine (bind_of_ok (eat_of_unseen ?_)).trans (hafter none)
    cases arguments with
    | none => exact hassign
    | some arguments => exact unseen_arguments (harguments arguments rfl) (by decide)
  | some assignment =>
    have hvalue : assignment.wellFormed := hassignment assignment rfl
    simp only [ExtAttr.Assignment.wellFormed, Bool.and_eq_true] at hvalue
    refine (bind_of_ok (eat_of_is (Token.is_of_isMark hvalue.1))).trans ?_
    exact (bind_of_ok (extAttrValue_accepts hvalue.2)).trans (hafter (some assignment))

theorem extAttrs {attrs : ExtAttrList} (hwf : attrs.wellFormed)
    (hlength : attrs.tokens.length ≤ n + 1) :
    inner.extAttrs (attrs.tokens ++ rest) = .ok (some attrs, rest) := by
  obtain ⟨opening, items, closing⟩ := attrs
  simp only [ExtAttrList.wellFormed, Bool.and_eq_true, extAttrsWellFormed_eq] at hwf
  obtain ⟨⟨hopening, hitems⟩, hclosing⟩ := hwf
  simp only [ExtAttrList.tokens, extAttrTokens_eq, List.length_cons, List.length_append,
    List.cons_append, List.append_assoc, List.nil_append] at hlength ⊢
  have hread : separated inner.extAttr "," (items.tokens ExtAttr.tokens ++ closing :: rest) =
      .ok (items, closing :: rest) :=
    separated_accepts (fun rest => Unseen "=" rest ∧ Unseen "(" rest)
      (fun a ha hok rest hends => h.extAttr hok
        (by have := Separated.length_le_of_mem ExtAttr.tokens ha; omega)
        hends.1 hends.2)
      (fun _ => Token.is_of_isMark)
      (fun _ _ hsep => ⟨unseen_of_isMark hsep (by decide), unseen_of_isMark hsep (by decide)⟩)
      hitems
      ⟨unseen_of_isMark hclosing (by decide), unseen_of_isMark hclosing (by decide)⟩
      (unseen_of_isMark hclosing (by decide))
  refine (bind_of_ok (eat_of_is (Token.is_of_isMark hopening))).trans ?_
  refine (bind_of_ok hread).trans ?_
  exact (bind_of_ok (expect_of_is (Token.is_of_isMark hclosing))).trans rfl

/-- Types with separators between them, up to a token that is none. -/
theorem types {types : Separated IdlType} {separator : Token → Bool} {word : String}
    {closing : Token} {cause : Cause} (hwf : typesWellFormed separator types)
    (hlength : (types.tokens IdlType.tokens).length ≤ n)
    (hword : ∀ token, separator token → token.is word)
    (hne : word ≠ "?" ∧ word ≠ "<" ∧ word ≠ "long") (hends : TypeEnds (closing :: rest))
    (hclosing : closing.is word = false) :
    separated (inner.type cause) word (types.tokens IdlType.tokens ++ closing :: rest) =
      .ok (types, closing :: rest) := by
  rw [typesWellFormed_eq] at hwf
  refine separated_accepts TypeEnds (fun a ha hok rest hends => h.type _ hok ?_ hends) hword
    (fun _ _ hsep => .of_is (hword _ hsep) hne) hwf hends (unseen_cons.mpr hclosing)
  have := Separated.length_le_of_mem IdlType.tokens ha
  omega

theorem singleType {form : TypeForm} (hwf : form.wellFormed)
    (hlength : form.tokens.length ≤ n + 1) (hname : form.first.is "(" = false)
    (hangle : Unseen "<" rest) (hlong : Unseen "long" rest) (missing : Cause) :
    inner.singleType missing (form.tokens ++ rest) = .ok (form, rest) := by
  cases form with
  | named first words =>
    simp only [TypeForm.wellFormed, Bool.or_eq_true, Bool.and_eq_true] at hwf
    rcases hwf with ⟨hfirst, hwords⟩ | hbuiltin
    · obtain rfl : words = [] := by simpa using hwords
      refine (bind_of_ok (identifier_of_kind (Token.kind_of_isName hfirst))).trans ?_
      split
      · exact (bind_of_ok (eat_of_unseen hangle)).trans rfl
      · exact namedType_of_isName hfirst
    · have hgeneric : Vocabulary.isGeneric first.text = false ∧ first.kind = .identifier := by
        rcases TypeForm.isWord_of_isBuiltin hbuiltin with h | h | h
        all_goals
          rw [Token.text_of_is (Token.is_of_isWord h)]
          exact ⟨by decide, Token.kind_of_isWord h⟩
      refine (bind_of_ok (identifier_of_kind hgeneric.2)).trans ?_
      rw [if_neg (by simp [hgeneric.1])]
      exact namedType_of_isBuiltin hbuiltin hlong
  | generic name opening arguments closing =>
    simp only [TypeForm.wellFormed, Bool.and_eq_true, beq_iff_eq] at hwf
    obtain ⟨⟨⟨⟨hkind, hgeneric⟩, hopening⟩, harguments⟩, hclosing⟩ := hwf
    simp only [TypeForm.tokens, typeTokens_eq, List.length_cons, List.length_append,
      List.cons_append, List.append_assoc, List.nil_append] at hlength ⊢
    refine (bind_of_ok (identifier_of_kind hkind)).trans ?_
    rw [if_pos hgeneric]
    refine (bind_of_ok (eat_of_is (Token.is_of_isMark hopening))).trans ?_
    refine (bind_of_ok (h.types harguments (by omega) (fun _ => Token.is_of_isMark) (by decide)
      (.of_isMark hclosing (by decide)) (Token.isMark_is hclosing (by decide)))).trans ?_
    exact (bind_of_ok (expect_of_is (Token.is_of_isMark hclosing))).trans rfl
  | union opening first separator others closing =>
    simp only [TypeForm.wellFormed, Bool.and_eq_true] at hwf
    have his : opening.is "(" = true := Token.is_of_isMark hwf.1.1.1.1
    rw [TypeForm.first, his] at hname
    cases hname

theorem unionType {opening separator closing : Token} {type : IdlType}
    {others : Separated IdlType}
    (hwf : (TypeForm.union opening type separator others closing).wellFormed)
    (hlength : (TypeForm.union opening type separator others closing).tokens.length ≤ n + 1)
    (missing : Cause) :
    inner.unionType missing opening
        (type.tokens ++ separator :: (others.tokens IdlType.tokens ++ closing :: rest)) =
      .ok (.union opening type separator others closing, rest) := by
  simp only [TypeForm.wellFormed, Bool.and_eq_true] at hwf
  obtain ⟨⟨⟨⟨-, htype⟩, hseparator⟩, hothers⟩, hclosing⟩ := hwf
  simp only [TypeForm.tokens, typeTokens_eq, List.length_cons, List.length_append] at hlength
  have hor := Token.is_of_isWord hseparator
  refine (bind_of_ok (h.type _ htype (by omega) (.of_is hor (by decide)))).trans ?_
  refine (bind_of_ok (eat_of_is hor)).trans ?_
  refine (bind_of_ok (h.types hothers (by omega) (fun _ => Token.is_of_isWord) (by decide)
    (.of_isMark hclosing (by decide)) (Token.isMark_is hclosing (by decide)))).trans ?_
  exact (bind_of_ok (expect_of_is (Token.is_of_isMark hclosing))).trans rfl

/-- What stands in front of a type, or of what is written outside of all brackets. -/
theorem someExtAttrs {attrs : Option ExtAttrList} (hattrs : ∀ list ∈ attrs, list.wellFormed)
    (hlength : (attrs.elim [] (·.tokens)).length ≤ n + 1) (hnone : attrs = none → Unseen "[" rest) :
    inner.extAttrs (attrs.elim [] (·.tokens) ++ rest) = .ok (attrs, rest) := by
  cases attrs with
  | none => exact (bind_of_ok (eat_of_unseen (hnone rfl))).trans rfl
  | some list => exact h.extAttrs (hattrs list rfl) hlength

theorem idlType {type : IdlType} (hwf : type.wellFormed) (hlength : type.tokens.length ≤ n + 1)
    (hrest : TypeEnds rest) (missing : Cause) :
    inner.idlType missing (type.tokens ++ rest) = .ok (type, rest) := by
  obtain ⟨attrs, form, nullable⟩ := type
  obtain ⟨hattrs, hform, hnullable⟩ := IdlType.wellFormed_mk.mp hwf
  simp only [IdlType.tokens_mk, List.length_append, List.append_assoc] at hlength ⊢
  have hmark : (do return IdlType.mk attrs form (← eat "?") : Rule IdlType)
      (nullable.toList ++ rest) = .ok (.mk attrs form nullable, rest) := by
    cases nullable with
    | none => exact (bind_of_ok (eat_of_unseen hrest.question)).trans rfl
    | some mark =>
      exact (bind_of_ok (eat_of_is (Token.is_of_isMark (hnullable mark rfl)))).trans rfl
  have hafter {word : String} (hunseen : Unseen word rest) (hne : "?" ≠ word) :
      Unseen word (nullable.toList ++ rest) := by
    cases nullable with
    | none => exact hunseen
    | some mark => exact unseen_of_isMark (hnullable mark rfl) hne
  obtain ⟨more, hmore⟩ := form.tokens_eq_cons
  refine (bind_of_ok (h.someExtAttrs hattrs (by omega) fun _ => ?_)).trans ?_
  · rw [hmore]
    exact unseen_cons.mpr (form.first_is hform (by decide) (by decide) nofun)
  cases form with
  | named first words | generic name opening arguments closing =>
    have hparen : "(" ∈ Token.marks ++ Token.keywords := by decide
    have hname := TypeForm.first_is hform hparen (by decide) fun _ => rfl
    refine (bind_of_ok (eat_of_unseen (by rw [hmore]; exact unseen_cons.mpr hname))).trans ?_
    have hread := h.singleType hform (by omega) hname (hafter hrest.angle (by decide))
      (hafter hrest.long (by decide)) missing
    exact (bind_of_ok hread).trans hmark
  | union opening first separator others closing =>
    have hopening : opening.isMark "(" := by
      simp only [TypeForm.wellFormed, Bool.and_eq_true] at hform
      exact hform.1.1.1.1
    simp only [TypeForm.tokens, typeTokens_eq, List.cons_append, List.append_assoc,
      List.nil_append]
    refine (bind_of_ok (eat_of_is (Token.is_of_isMark hopening))).trans ?_
    exact (bind_of_ok (h.unionType hform (by omega) missing)).trans hmark

end Accepts

end Nested

/-! ### All levels -/

/-- Each level reads back what the level inside it reads back and one bracket around it. -/
theorem nested_accepts (depth : Nat) : (nested depth).Accepts depth := by
  induction depth with
  | zero =>
    refine ⟨fun {type rest} missing _ hlength _ => ?_, fun {attrs rest} _ hlength => ?_,
      fun _ => rfl⟩
    · obtain ⟨more, hmore⟩ := type.tokens_eq_cons
      simp [hmore] at hlength
    · obtain ⟨more, hmore⟩ := attrs.tokens_eq_cons
      simp [hmore] at hlength
  | succ depth ih =>
    exact ⟨fun missing hwf hlength hrest => ih.idlType hwf hlength hrest missing,
      fun hwf hlength => ih.extAttrs hwf hlength,
      fun hunseen => (bind_of_ok (eat_of_unseen hunseen)).trans rfl⟩

theorem idlType_accepts {type : IdlType} (hwf : type.wellFormed) (hrest : TypeEnds rest)
    (missing : Cause) : idlType missing (type.tokens ++ rest) = .ok (type, rest) :=
  (nested_accepts _).idlType hwf (by simp only [List.length_append]; omega) hrest missing

theorem extAttrs_accepts {attrs : Option ExtAttrList} (hattrs : ∀ list ∈ attrs, list.wellFormed)
    (hnone : attrs = none → Unseen "[" rest) :
    extAttrs (attrs.elim [] (·.tokens) ++ rest) = .ok (attrs, rest) :=
  (nested_accepts _).someExtAttrs hattrs (by simp only [List.length_append]; omega) hnone

theorem argumentList_accepts {arguments : ArgumentList} (hwf : arguments.wellFormed)
    (missing : Cause) : argumentList missing (arguments.tokens ++ rest) = .ok (arguments, rest) :=
  (nested_accepts _).argumentList hwf (by simp only [List.length_append]; omega) missing

end Grammar

end WebIdl
