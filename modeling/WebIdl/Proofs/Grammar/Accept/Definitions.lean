import WebIdl.Proofs.Grammar.Accept.Members
import WebIdl.Proofs.Syntax.Tokens

/-!
# Definitions are read back

A well-formed definition is read back from its tokens, whatever follows them: its first words tell
which form it has, and every form ends with a semicolon.

* `container_accepts`, `typedef_accepts`, `callback_accepts`, `includes_accepts` — the forms, once
  their keywords have been read.
* `definitionForm_accepts` — the keywords choose the form that they were written for.
* `definition_accepts` — a definition is read back.
-/

namespace WebIdl.Grammar

open Rule Definition

variable {rest : List Token}

/-! ### Definitions with members -/

theorem body_accepts {head : Head} {name : Token} {body : Body}
    (h : body.wellFormed head.kind name.name) :
    Grammar.body head name (body.tokens ++ rest) = .ok (body, rest) := by
  simp only [Body.wellFormed, Bool.and_eq_true, Bool.or_eq_true, List.all_eq_true] at h
  obtain ⟨⟨⟨⟨hopening, hmembers⟩, henum⟩, hclosing⟩, hsemicolon⟩ := h
  have henum' (hkind : head.kind = .enum) :
      body.members ≠ [] ∧ body.members.dropLast.all (·.form.hasSeparator) := by
    simpa [hkind] using henum
  simp only [Body.tokens, List.append_assoc, List.cons_append, List.nil_append]
  refine (bind_of_ok (expect_of_is (Token.is_of_isMark hopening))).trans ?_
  refine (bind_of_ok (members_accepts hmembers henum' hclosing)).trans ?_
  refine (bind_of_ok (expect_of_is (Token.is_of_isMark hclosing))).trans ?_
  exact (bind_of_ok (expect_of_is (Token.is_of_isMark hsemicolon))).trans rfl

theorem inheritance_accepts {head : Head} {parent : Option Inheritance}
    (hparent : ∀ p ∈ parent, p.wellFormed)
    (hhead : parent.isSome → head.isPartial = false ∧ head.kind ≠ .enum) (hrest : Unseen ":" rest) :
    inheritance head (parent.elim [] (fun p => [p.colon, p.name]) ++ rest) =
      .ok (parent, rest) := by
  unfold inheritance
  cases parent with
  | none =>
    split
    · rfl
    · exact (bind_of_ok (eat_of_unseen hrest)).trans rfl
  | some parent =>
    have hwf := hparent parent rfl
    simp only [Inheritance.wellFormed, Bool.and_eq_true, beq_iff_eq] at hwf
    rw [if_neg (by simpa using hhead rfl)]
    refine (bind_of_ok (eat_of_is (Token.is_of_isMark hwf.1))).trans ?_
    exact (bind_of_ok (identifier_of_kind hwf.2)).trans rfl

theorem container_accepts {head : Head} {name : Token} {parent : Option Inheritance} {body : Body}
    (h : (Form.container head name parent body).wellFormed) :
    container head (name :: (parent.elim [] (fun p => [p.colon, p.name]) ++
        (body.tokens ++ rest))) =
      .ok (.container head name parent body, rest) := by
  simp only [Form.wellFormed, Bool.and_eq_true, Bool.or_eq_true, Option.all_eq_true] at h
  obtain ⟨⟨⟨⟨-, hname⟩, hparent⟩, hinherits⟩, hbody⟩ := h
  have hopening : Unseen ":" (body.tokens ++ rest) := by
    simp only [Body.wellFormed, Bool.and_eq_true] at hbody
    exact unseen_of_isMark hbody.1.1.1.1 (by decide)
  have hhead (hsome : parent.isSome) : head.isPartial = false ∧ head.kind ≠ .enum := by
    simpa [Option.isSome_iff_ne_none.mp hsome] using hinherits
  refine (bind_of_ok (identifier_of_kind (Token.kind_of_isName hname))).trans ?_
  refine within_of_ok ?_
  refine (bind_of_ok (inheritance_accepts hparent hhead hopening)).trans ?_
  exact (bind_of_ok (body_accepts hbody)).trans rfl

/-! ### The other forms -/

theorem typedef_accepts {keyword name semicolon : Token} {type : IdlType}
    (h : (Form.typedef keyword type name semicolon).wellFormed) :
    typedef keyword (type.tokens ++ name :: semicolon :: rest) =
      .ok (.typedef keyword type name semicolon, rest) := by
  simp only [Form.wellFormed, Bool.and_eq_true] at h
  obtain ⟨⟨⟨-, htype⟩, hname⟩, hsemicolon⟩ := h
  refine (bind_of_ok (idlType_accepts htype (.of_isName hname) _)).trans ?_
  refine (bind_of_ok (identifier_of_kind (Token.kind_of_isName hname))).trans ?_
  refine within_of_ok ?_
  exact (bind_of_ok (expect_of_is (Token.is_of_isMark hsemicolon))).trans rfl

theorem callback_accepts {keyword name assign semicolon : Token} {result : IdlType}
    {arguments : ArgumentList}
    (h : (Form.callback keyword name assign result arguments semicolon).wellFormed) :
    callback keyword
        (name :: assign :: (result.tokens ++ (arguments.tokens ++ semicolon :: rest))) =
      .ok (.callback keyword name assign result arguments semicolon, rest) := by
  simp only [Form.wellFormed, Bool.and_eq_true] at h
  obtain ⟨⟨⟨⟨⟨-, hname⟩, hassign⟩, hresult⟩, harguments⟩, hsemicolon⟩ := h
  refine (bind_of_ok (identifier_of_kind (Token.kind_of_isName hname))).trans ?_
  refine within_of_ok ?_
  refine (bind_of_ok (expect_of_is (Token.is_of_isMark hassign))).trans ?_
  refine (bind_of_ok (idlType_accepts hresult (typeEnds_arguments harguments) _)).trans ?_
  refine (bind_of_ok (argumentList_accepts harguments _)).trans ?_
  exact (bind_of_ok (expect_of_is (Token.is_of_isMark hsemicolon))).trans rfl

theorem includes_accepts {name keyword mixin semicolon : Token}
    (h : (Form.includes name keyword mixin semicolon).wellFormed) :
    includes (name :: keyword :: mixin :: semicolon :: rest) =
      .ok (.includes name keyword mixin semicolon, rest) := by
  simp only [Form.wellFormed, Bool.and_eq_true, beq_iff_eq] at h
  obtain ⟨⟨⟨hname, hkeyword⟩, hmixin⟩, hsemicolon⟩ := h
  refine (bind_of_ok (identifier_of_kind (Token.kind_of_isName hname))).trans ?_
  refine within_of_ok ?_
  refine (bind_of_ok (expect_of_is (Token.is_of_isWord hkeyword))).trans ?_
  refine (bind_of_ok (identifier_of_kind hmixin)).trans ?_
  exact (bind_of_ok (expect_of_is (Token.is_of_isMark hsemicolon))).trans rfl

/-! ### The keywords of a definition -/

/-- The word `partial` is read if it is there. -/
theorem definitionForm_of_partial (partialWord : Option Token)
    (hpartial : ∀ token ∈ partialWord, token.isWord "partial")
    (hrest : Unseen "callback" rest ∧ Unseen "partial" rest) :
    definitionForm (partialWord.toList ++ rest) = partialForm partialWord rest := by
  have hcallback : Unseen "callback" (partialWord.toList ++ rest) := by
    cases partialWord with
    | none => exact hrest.1
    | some word => exact unseen_of_isWord (hpartial word rfl) (by decide)
  refine (bind_of_ok (eat_of_unseen hcallback)).trans ?_
  exact bind_of_ok (eat_toList hpartial hrest.2)

theorem definitionForm_eq (hrest : Unseen "callback" rest ∧ Unseen "partial" rest) :
    definitionForm rest = partialForm none rest :=
  definitionForm_of_partial none nofun hrest

/-- The keywords of a head choose it, whatever name stands after them. -/
theorem definitionForm_container {head : Head} {name : Token} (hhead : head.wellFormed)
    (hname : name.isName) :
    definitionForm (head.tokens ++ name :: rest) = container head (name :: rest) := by
  cases head with
  | interface partialWord keyword =>
    simp only [Head.wellFormed, Bool.and_eq_true, Option.all_eq_true] at hhead
    obtain ⟨hpartial, hkeyword⟩ := hhead
    simp only [Head.tokens, List.append_assoc, List.cons_append, List.nil_append]
    rw [definitionForm_of_partial _ hpartial
      ⟨unseen_of_isWord hkeyword (by decide), unseen_of_isWord hkeyword (by decide)⟩]
    refine (bind_of_ok (eat_of_is (Token.is_of_isWord hkeyword))).trans ?_
    exact bind_of_ok (eat_of_unseen (unseen_of_isName hname (by decide)))
  | interfaceMixin partialWord keyword mixinWord =>
    simp only [Head.wellFormed, Bool.and_eq_true, Option.all_eq_true] at hhead
    obtain ⟨⟨hpartial, hkeyword⟩, hmixin⟩ := hhead
    simp only [Head.tokens, List.append_assoc, List.cons_append, List.nil_append]
    rw [definitionForm_of_partial _ hpartial
      ⟨unseen_of_isWord hkeyword (by decide), unseen_of_isWord hkeyword (by decide)⟩]
    refine (bind_of_ok (eat_of_is (Token.is_of_isWord hkeyword))).trans ?_
    exact bind_of_ok (eat_of_is (Token.is_of_isWord hmixin))
  | callbackInterface callbackWord keyword =>
    simp only [Head.wellFormed, Bool.and_eq_true] at hhead
    obtain ⟨hcallback, hkeyword⟩ := hhead
    refine (bind_of_ok (eat_of_is (Token.is_of_isWord hcallback))).trans ?_
    exact bind_of_ok (eat_of_is (Token.is_of_isWord hkeyword))
  | «namespace» partialWord keyword =>
    simp only [Head.wellFormed, Bool.and_eq_true, Option.all_eq_true] at hhead
    obtain ⟨hpartial, hkeyword⟩ := hhead
    simp only [Head.tokens, List.append_assoc, List.cons_append, List.nil_append]
    rw [definitionForm_of_partial _ hpartial
      ⟨unseen_of_isWord hkeyword (by decide), unseen_of_isWord hkeyword (by decide)⟩]
    refine (bind_of_ok (eat_of_unseen (unseen_of_isWord hkeyword (by decide)))).trans ?_
    exact bind_of_ok (eat_of_is (Token.is_of_isWord hkeyword))
  | dictionary partialWord keyword =>
    simp only [Head.wellFormed, Bool.and_eq_true, Option.all_eq_true] at hhead
    obtain ⟨hpartial, hkeyword⟩ := hhead
    simp only [Head.tokens, List.append_assoc, List.cons_append, List.nil_append]
    rw [definitionForm_of_partial _ hpartial
      ⟨unseen_of_isWord hkeyword (by decide), unseen_of_isWord hkeyword (by decide)⟩]
    refine (bind_of_ok (eat_of_unseen (unseen_of_isWord hkeyword (by decide)))).trans ?_
    refine (bind_of_ok (eat_of_unseen (unseen_of_isWord hkeyword (by decide)))).trans ?_
    exact bind_of_ok (eat_of_is (Token.is_of_isWord hkeyword))
  | enum keyword =>
    have hkeyword : keyword.isWord "enum" := hhead
    simp only [Head.tokens, List.cons_append, List.nil_append]
    rw [definitionForm_eq
      ⟨unseen_of_isWord hkeyword (by decide), unseen_of_isWord hkeyword (by decide)⟩]
    refine (bind_of_ok (eat_of_unseen (unseen_of_isWord hkeyword (by decide)))).trans ?_
    refine (bind_of_ok (eat_of_unseen (unseen_of_isWord hkeyword (by decide)))).trans ?_
    refine (bind_of_ok (eat_of_unseen (unseen_of_isWord hkeyword (by decide)))).trans ?_
    exact bind_of_ok (eat_of_is (Token.is_of_isWord hkeyword))

theorem definitionForm_accepts {form : Form} (h : form.wellFormed) :
    definitionForm (form.tokens ++ rest) = .ok (form, rest) := by
  cases form with
  | container head name parent body =>
    have hwf := h
    simp only [Form.wellFormed, Bool.and_eq_true] at hwf
    simp only [Form.tokens, List.append_assoc, List.cons_append]
    rw [definitionForm_container hwf.1.1.1.1 hwf.1.1.1.2]
    exact container_accepts h
  | typedef keyword type name semicolon =>
    have hkeyword : keyword.isWord "typedef" := by
      simp only [Form.wellFormed, Bool.and_eq_true] at h
      exact h.1.1.1
    simp only [Form.tokens, List.append_assoc, List.cons_append, List.nil_append]
    rw [definitionForm_eq
      ⟨unseen_of_isWord hkeyword (by decide), unseen_of_isWord hkeyword (by decide)⟩]
    refine (bind_of_ok (eat_of_unseen (unseen_of_isWord hkeyword (by decide)))).trans ?_
    refine (bind_of_ok (eat_of_unseen (unseen_of_isWord hkeyword (by decide)))).trans ?_
    refine (bind_of_ok (eat_of_unseen (unseen_of_isWord hkeyword (by decide)))).trans ?_
    refine (bind_of_ok (eat_of_unseen (unseen_of_isWord hkeyword (by decide)))).trans ?_
    exact (bind_of_ok (eat_of_is (Token.is_of_isWord hkeyword))).trans (typedef_accepts h)
  | callback keyword name assign result arguments semicolon =>
    have hwf := h
    simp only [Form.wellFormed, Bool.and_eq_true] at hwf
    simp only [Form.tokens, List.append_assoc, List.cons_append, List.nil_append]
    refine (bind_of_ok (eat_of_is (Token.is_of_isWord hwf.1.1.1.1.1))).trans ?_
    refine (bind_of_ok (eat_of_unseen (unseen_of_isName hwf.1.1.1.1.2 (by decide)))).trans ?_
    exact callback_accepts h
  | includes name keyword mixin semicolon =>
    have hwf := h
    simp only [Form.wellFormed, Bool.and_eq_true] at hwf
    have hname := hwf.1.1.1
    simp only [Form.tokens, List.cons_append, List.nil_append]
    rw [definitionForm_eq
      ⟨unseen_of_isName hname (by decide), unseen_of_isName hname (by decide)⟩]
    refine (bind_of_ok (eat_of_unseen (unseen_of_isName hname (by decide)))).trans ?_
    refine (bind_of_ok (eat_of_unseen (unseen_of_isName hname (by decide)))).trans ?_
    refine (bind_of_ok (eat_of_unseen (unseen_of_isName hname (by decide)))).trans ?_
    refine (bind_of_ok (eat_of_unseen (unseen_of_isName hname (by decide)))).trans ?_
    refine (bind_of_ok (eat_of_unseen (unseen_of_isName hname (by decide)))).trans ?_
    refine (bind_of_ok (seesSecond_of_true (Token.is_of_isWord hwf.1.1.2))).trans ?_
    exact includes_accepts h

/-! ### Definitions -/

/-- A definition starts with a word. -/
theorem first_isNot_bracket {form : Form} (h : form.wellFormed) : form.first.is "[" = false := by
  cases form with
  | container head name parent body =>
    simp only [Form.wellFormed, Bool.and_eq_true] at h
    have hhead := h.1.1.1.1
    cases head with
    | interface partialWord keyword | «namespace» partialWord keyword
    | dictionary partialWord keyword =>
      simp only [Head.wellFormed, Bool.and_eq_true, Option.all_eq_true] at hhead
      cases partialWord with
      | none => exact Token.isWord_is hhead.2 (by decide)
      | some word => exact Token.isWord_is (hhead.1 word rfl) (by decide)
    | interfaceMixin partialWord keyword mixinWord =>
      simp only [Head.wellFormed, Bool.and_eq_true, Option.all_eq_true] at hhead
      cases partialWord with
      | none => exact Token.isWord_is hhead.1.2 (by decide)
      | some word => exact Token.isWord_is (hhead.1.1 word rfl) (by decide)
    | callbackInterface callbackWord keyword =>
      simp only [Head.wellFormed, Bool.and_eq_true] at hhead
      exact Token.isWord_is hhead.1 (by decide)
    | enum keyword => exact Token.isWord_is (show keyword.isWord "enum" from hhead) (by decide)
  | typedef keyword type name semicolon =>
    simp only [Form.wellFormed, Bool.and_eq_true] at h
    exact Token.isWord_is h.1.1.1 (by decide)
  | callback keyword name assign result arguments semicolon =>
    simp only [Form.wellFormed, Bool.and_eq_true] at h
    exact Token.isWord_is h.1.1.1.1.1 (by decide)
  | includes name keyword mixin semicolon =>
    simp only [Form.wellFormed, Bool.and_eq_true] at h
    exact Token.isName_is h.1.1.1 (by decide)

theorem definition_accepts {d : Definition} (h : d.wellFormed) :
    definition (d.tokens ++ rest) = .ok (d, rest) := by
  simp only [Definition.wellFormed, Bool.and_eq_true, Option.all_eq_true] at h
  obtain ⟨hattrs, hform⟩ := h
  have hnone : Unseen "[" (d.form.tokens ++ rest) := by
    rw [d.form.tokens_eq_cons]
    exact unseen_cons.mpr (first_isNot_bracket hform)
  rw [Definition.tokens, List.append_assoc]
  refine (bind_of_ok (extAttrs_accepts hattrs fun _ => hnone)).trans ?_
  exact (bind_of_ok (definitionForm_accepts hform)).trans rfl

end WebIdl.Grammar
