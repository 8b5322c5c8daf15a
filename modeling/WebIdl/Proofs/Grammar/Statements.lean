import WebIdl.Grammar.Definition
import WebIdl.Proofs.Grammar.Nested

/-!
# What the rules for members and definitions read

Like the nodes nested in them, members and definitions hold the tokens they were read from.

* `Member.Form.Allowed`, `Member.Fits` — what the grammar lets a member be, by the kind and the
  name of the definition that it stands in.
* `members_reads` — the members in braces fit the definition that the braces belong to.
* `definition_reads` — a definition holds the tokens it was read from, the last of them a semicolon,
  and its members fit it.
-/

namespace WebIdl

namespace Member

/-- What the grammar lets a member be in a definition of kind `container`. -/
def Form.Allowed (container : Definition.Kind) : Form → Prop
  | .field required _ _ default _ =>
    container = .dictionary ∧ (required.isSome = false ∨ default.isSome = false)
  | .enumValue value _ => container = .enum ∧ value.kind = .string
  | .operation modifiers _ _ _ _ =>
    (container ≠ .dictionary ∧ container ≠ .enum) ∧
      (container = .namespace → Kind.ofModifiers modifiers = .operation ∨
        Kind.ofModifiers modifiers = .stringifier)
  | .declaration modifiers keyword _ types _ arguments _ =>
    (container ≠ .dictionary ∧ container ≠ .enum) ∧
      (Grammar.declarationArity (Kind.ofDeclaration modifiers keyword)).1 ≤ types.items.length ∧
      types.items.length ≤ (Grammar.declarationArity (Kind.ofDeclaration modifiers keyword)).2 ∧
      (arguments.isSome → Kind.ofDeclaration modifiers keyword = .asyncIterable)
  | _ => container ≠ .dictionary ∧ container ≠ .enum

/-- The member may stand in a definition of this kind and name. -/
structure Fits (container : Definition.Kind) (scope : String) (member : Member) : Prop where
  scope_eq : member.scope = scope
  attrs_eq_none : container = .enum → member.attrs = none
  allowed : member.form.Allowed container

end Member

/-- The members of a definition may stand in it, and a semicolon ends it. -/
structure Definition.Form.Proper (form : Definition.Form) : Prop where
  membersFit : ∀ member ∈ form.members, member.Fits form.kind form.nameToken.name
  semicolon_is : form.semicolon.is ";"

theorem Definition.Form.Proper.of_nil {form : Definition.Form} (h : form.members = [])
    (hsemicolon : form.semicolon.is ";") : form.Proper :=
  ⟨by simp [h], hsemicolon⟩

namespace Grammar

open Rule

variable {container : Definition.Kind}

/-! ### Members of interfaces, mixins and namespaces -/

theorem constructorForm_reads (hc : container ≠ .dictionary ∧ container ≠ .enum)
    (keyword : Token) :
    (constructorForm keyword).Reads fun form read =>
      keyword :: read = form.tokens ∧ form.Allowed container := by
  refine (argumentList_reads _).bind ?_
  rintro arguments _ rfl
  refine (Reads.expect ";" _).bind ?_
  rintro semicolon _ ⟨rfl, -⟩
  exact .pure ⟨by simp [Member.Form.tokens], hc⟩

theorem attributeForm_reads (hc : container ≠ .dictionary ∧ container ≠ .enum)
    (words : List Token) (keyword : Token) :
    (attributeForm words keyword).Reads fun form read =>
      words ++ keyword :: read = form.tokens ∧ form.Allowed container := by
  refine (idlType_reads _).bind ?_
  rintro type _ rfl
  refine (Reads.identifier _).bind ?_
  rintro name _ ⟨rfl, -⟩
  refine (Reads.expect ";" _).bind ?_
  rintro semicolon _ ⟨rfl, -⟩
  exact .pure ⟨by simp [Member.Form.tokens], hc⟩

theorem operationForm_reads (hc : container ≠ .dictionary ∧ container ≠ .enum)
    {words : List Token} (hwords : container = .namespace →
      Member.Kind.ofModifiers words = .operation ∨ Member.Kind.ofModifiers words = .stringifier) :
    (operationForm words).Reads fun form read =>
      words ++ read = form.tokens ∧ form.Allowed container := by
  refine (idlType_reads _).bind ?_
  rintro type _ rfl
  refine (Reads.eatIf _).bind ?_
  rintro name _ ⟨rfl, -⟩
  refine (argumentList_reads _).bind ?_
  rintro arguments _ rfl
  refine (Reads.expect ";" _).bind ?_
  rintro semicolon _ ⟨rfl, -⟩
  exact .pure ⟨by simp [Member.Form.tokens], hc, hwords⟩

theorem constantForm_reads (hc : container ≠ .dictionary ∧ container ≠ .enum) (keyword : Token) :
    (constantForm keyword).Reads fun form read =>
      keyword :: read = form.tokens ∧ form.Allowed container := by
  refine (idlType_reads _).bind ?_
  rintro type _ rfl
  refine (Reads.identifier _).bind ?_
  rintro name _ ⟨rfl, -⟩
  refine (Reads.expect "=" _).bind ?_
  rintro assign _ ⟨rfl, -⟩
  refine (literal_reads _).bind ?_
  rintro value _ rfl
  refine (Reads.expect ";" _).bind ?_
  rintro semicolon _ ⟨rfl, -⟩
  exact .pure ⟨by simp [Member.Form.tokens], hc⟩

theorem declarationForm_reads (hc : container ≠ .dictionary ∧ container ≠ .enum)
    (words : List Token) (keyword : Token) :
    (declarationForm words keyword).Reads fun form read =>
      words ++ keyword :: read = form.tokens ∧ form.Allowed container := by
  refine (Reads.expect "<" _).bind ?_
  rintro opening _ ⟨rfl, -⟩
  refine (Reads.separated "," (idlType_reads _)).bind ?_
  rintro types _ rfl
  refine Reads.guard fun hcount => ?_
  have harity : (declarationArity (.ofDeclaration words keyword)).1 ≤ types.items.length ∧
      types.items.length ≤ (declarationArity (.ofDeclaration words keyword)).2 := by
    simpa [declarationArity] using hcount
  refine (Reads.expect ">" _).bind ?_
  rintro closing _ ⟨rfl, -⟩
  refine (Reads.sees _).bind ?_
  rintro parenthesis _ rfl
  have arguments_reads : (some <$> argumentList .declarationNoArguments).Reads
      fun arguments read => read = arguments.elim [] (·.tokens) :=
    (argumentList_reads _).map fun _ _ hread => hread
  refine Reads.ite (fun hasync => ?_) fun _ => ?_
  · refine arguments_reads.bind ?_
    rintro arguments _ rfl
    refine (Reads.expect ";" _).bind ?_
    rintro semicolon _ ⟨rfl, -⟩
    refine .pure ⟨?_, hc, harity.1, harity.2, fun _ => ?_⟩
    · simp [Member.Form.tokens, typeTokens_eq]
    · exact (by simpa using hasync : _ ∧ _).1
  · rw [pure_bind]
    refine (Reads.expect ";" _).bind ?_
    rintro semicolon _ ⟨rfl, -⟩
    refine .pure ⟨?_, hc, harity.1, harity.2, nofun⟩
    simp [Member.Form.tokens, typeTokens_eq]

/-- The words before an attribute or an operation. -/
def isModifier (word : Token) : Prop :=
  word.is "static" ∨ word.is "stringifier" ∨ word.is "inherit" ∨ word.is "readonly"

theorem modifiers_reads : modifiers.Reads fun words read =>
    read = words ∧ ∀ word ∈ words, isModifier word := by
  refine (Reads.eat "static").bind ?_
  rintro staticWord _ ⟨rfl, hstatic⟩
  refine (Reads.eat "stringifier").bind ?_
  rintro stringifierWord _ ⟨rfl, hstringifier⟩
  refine (Reads.eat "inherit").bind ?_
  rintro inheritWord _ ⟨rfl, hinherit⟩
  refine (Reads.eat "readonly").bind ?_
  rintro readonlyWord _ ⟨rfl, hreadonly⟩
  refine .pure ⟨by simp, fun word hword => ?_⟩
  simp only [List.mem_append, Option.mem_toList] at hword
  rcases hword with ((h | h) | h) | h
  · exact .inl (hstatic word h)
  · exact .inr (.inl (hstringifier word h))
  · exact .inr (.inr (.inl (hinherit word h)))
  · exact .inr (.inr (.inr (hreadonly word h)))

theorem specialWord_reads : specialWord.Reads fun words read => read = words := by
  refine (Reads.eatIf _).bind ?_
  rintro word _ ⟨rfl, -⟩
  exact .pure (by simp)

theorem ofModifiers_of_isModifier {words : List Token} (h : ∀ word ∈ words, isModifier word) :
    Member.Kind.ofModifiers words = .operation ∨ Member.Kind.ofModifiers words = .stringifier := by
  induction words with
  | nil => exact .inl rfl
  | cons word words ih =>
    have hword := h word List.mem_cons_self
    have ih := ih fun w hw => h w (List.mem_cons_of_mem _ hw)
    simp only [isModifier, Token.is, Bool.and_eq_true, beq_iff_eq] at hword
    rcases hword with h | h | h | h
    · simpa [Member.Kind.ofModifiers, h.2, Member.Kind.ofSpecial?] using ih
    · exact .inr (by simp [Member.Kind.ofModifiers, h.2, Member.Kind.ofSpecial?])
    · simpa [Member.Kind.ofModifiers, h.2, Member.Kind.ofSpecial?] using ih
    · simpa [Member.Kind.ofModifiers, h.2, Member.Kind.ofSpecial?] using ih

theorem modifiedMember_reads (hc : container ≠ .dictionary ∧ container ≠ .enum) :
    (modifiedMember container).Reads fun form read =>
      read = form.tokens ∧ form.Allowed container := by
  refine modifiers_reads.bind ?_
  rintro _ words ⟨rfl, hwords⟩
  refine (Reads.eat "attribute").bind ?_
  rintro (_ | keyword) _ ⟨rfl, -⟩
  · refine Reads.guard fun _ => ?_
    refine Reads.ite (fun hspecial => ?_) fun _ => ?_
    · have hspecial : words = [] ∧ container ≠ .namespace := by simpa using hspecial
      refine specialWord_reads.bind ?_
      rintro word _ rfl
      refine (operationForm_reads hc fun h => absurd h hspecial.2).mono ?_
      rintro form read ⟨hread, hallowed⟩
      exact ⟨by simp [← hread, hspecial.1], hallowed⟩
    · refine (operationForm_reads hc fun _ => ofModifiers_of_isModifier hwords).mono ?_
      rintro form read ⟨hread, hallowed⟩
      exact ⟨by simp [← hread], hallowed⟩
  · refine (attributeForm_reads hc words keyword).mono ?_
    rintro form read ⟨hread, hallowed⟩
    exact ⟨by simp [← hread], hallowed⟩

theorem interfaceMemberForm_reads (hc : container ≠ .dictionary ∧ container ≠ .enum) :
    (interfaceMemberForm container).Reads fun form read =>
      read = form.tokens ∧ form.Allowed container := by
  refine (Reads.eat "const").bind ?_
  rintro (_ | keyword) _ ⟨rfl, -⟩
  case some => exact constantForm_reads hc keyword
  refine (Reads.eatBefore _ _).bind ?_
  rintro (_ | keyword) _ ⟨rfl, -⟩
  case some => exact constructorForm_reads hc keyword
  refine (Reads.eatPair _ _).bind ?_
  rintro (_ | ⟨keyword, semicolon⟩) _ ⟨rfl, -⟩
  case some => exact .pure ⟨by simp [Member.Form.tokens], hc⟩
  refine (Reads.eatIf _).bind ?_
  rintro (_ | keyword) _ ⟨rfl, -⟩
  case some => exact declarationForm_reads hc [] keyword
  refine (Reads.eatPair _ _).bind ?_
  rintro (_ | ⟨word, keyword⟩) _ ⟨rfl, -⟩
  case some => exact declarationForm_reads hc [word] keyword
  refine (Reads.eatPair _ _).bind ?_
  rintro (_ | ⟨word, keyword⟩) _ ⟨rfl, -⟩
  case some => exact declarationForm_reads hc [word] keyword
  exact modifiedMember_reads hc

theorem interfaceMember_reads (hc : container ≠ .dictionary ∧ container ≠ .enum)
    (scope : String) :
    (interfaceMember container scope).Reads fun member read =>
      read = member.tokens ∧ member.Fits container scope := by
  refine extAttrs_reads.bind ?_
  rintro attrs _ rfl
  refine (interfaceMemberForm_reads hc).bind ?_
  rintro form _ ⟨rfl, hallowed⟩
  exact .pure ⟨by simp [Member.tokens], rfl, fun h => absurd h hc.2, hallowed⟩

/-! ### Fields and enumeration values -/

theorem field_reads (scope : String) :
    (field scope).Reads fun member read =>
      read = member.tokens ∧ member.Fits .dictionary scope := by
  refine extAttrs_reads.bind ?_
  rintro attrs _ rfl
  refine (Reads.eat "required").bind ?_
  rintro required _ ⟨rfl, -⟩
  refine (idlType_reads _).bind ?_
  rintro type _ rfl
  refine (Reads.identifier _).bind ?_
  rintro name _ ⟨rfl, -⟩
  refine default?_reads.bind ?_
  rintro default _ rfl
  refine Reads.guard fun hrequired => ?_
  have hrequired : required.isSome = false ∨ default.isSome = false := by
    simpa [Bool.and_eq_false_iff, Decidable.imp_iff_not_or] using hrequired
  refine (Reads.expect ";" _).bind ?_
  rintro semicolon _ ⟨rfl, -⟩
  exact .pure ⟨by simp [Member.tokens, Member.Form.tokens], rfl, nofun, rfl, hrequired⟩

theorem enumValuesUpTo_reads (scope : String) (bound : Nat) :
    (enumValuesUpTo scope bound).Reads fun values read =>
      read = values.flatMap Member.tokens ∧ ∀ value ∈ values, value.Fits .enum scope := by
  induction bound with
  | zero =>
    unfold enumValuesUpTo
    exact .pure ⟨rfl, by simp⟩
  | succ bound ih =>
    unfold enumValuesUpTo
    refine (Reads.eatIf _).bind ?_
    rintro (_ | value) _ ⟨rfl, hvalue⟩
    · exact .pure ⟨rfl, by simp⟩
    · have hstring : value.kind = .string := by simpa using hvalue
      refine (Reads.eat ",").bind ?_
      rintro (_ | separator) _ ⟨rfl, -⟩
      · refine .pure ⟨by simp [Member.tokens, Member.Form.tokens], ?_⟩
        simpa using ⟨rfl, fun _ => rfl, rfl, hstring⟩
      · refine ih.bind ?_
        rintro values _ ⟨rfl, hfits⟩
        refine .pure ⟨by simp [Member.tokens, Member.Form.tokens], ?_⟩
        simpa using ⟨⟨rfl, fun _ => rfl, rfl, hstring⟩, hfits⟩

theorem enumValues_reads (scope : String) :
    (enumValues scope).Reads fun values read =>
      read = values.flatMap Member.tokens ∧ ∀ value ∈ values, value.Fits .enum scope := by
  refine (Reads.bounded (enumValuesUpTo_reads scope)).bind ?_
  rintro values _ ⟨rfl, hfits⟩
  refine Reads.guard fun _ => ?_
  exact .pure ⟨by simp, hfits⟩

/-! ### Members in braces -/

theorem members_reads (container : Definition.Kind) (scope : String) :
    (members container scope).Reads fun list read =>
      read = list.flatMap Member.tokens ∧ ∀ member ∈ list, member.Fits container scope := by
  unfold members
  split
  · exact enumValues_reads scope
  · exact Reads.repeated _ (field_reads scope)
  · exact Reads.repeated _ (interfaceMember_reads ⟨‹_›, ‹_›⟩ scope)

/-! ### Definitions -/

theorem inheritance_reads (head : Definition.Head) :
    (inheritance head).Reads fun parent read =>
      read = parent.elim [] fun p => [p.colon, p.name] := by
  refine Reads.ite (fun _ => .pure rfl) fun _ => ?_
  refine (Reads.eat ":").bind ?_
  rintro (_ | colon) _ ⟨rfl, -⟩
  case none => exact .pure rfl
  refine (Reads.identifier _).bind ?_
  rintro name _ ⟨rfl, -⟩
  exact .pure rfl

theorem body_reads (head : Definition.Head) (name : Token) :
    (body head name).Reads fun body read =>
      read = body.tokens ∧ body.semicolon.is ";" ∧
        ∀ member ∈ body.members, member.Fits head.kind name.name := by
  refine (Reads.expect "\x7b" _).bind ?_
  rintro opening _ ⟨rfl, -⟩
  refine (members_reads head.kind name.name).bind ?_
  rintro list _ ⟨rfl, hfits⟩
  refine (Reads.expect "\x7d" _).bind ?_
  rintro closing _ ⟨rfl, -⟩
  refine (Reads.expect ";" _).bind ?_
  rintro semicolon _ ⟨rfl, hsemicolon⟩
  exact .pure ⟨by simp [Definition.Body.tokens], hsemicolon, hfits⟩

theorem container_reads (head : Definition.Head) :
    (Grammar.container head).Reads fun form read =>
      head.tokens ++ read = form.tokens ∧ form.Proper := by
  refine (Reads.identifier _).bind ?_
  rintro name _ ⟨rfl, -⟩
  refine Reads.within _ ?_
  refine (inheritance_reads head).bind ?_
  rintro parent _ rfl
  refine (body_reads head name).bind ?_
  rintro body _ ⟨rfl, hsemicolon, hfits⟩
  exact .pure ⟨by simp [Definition.Form.tokens], hfits, hsemicolon⟩

/-- With the words in front of it, in whatever way they have been read. -/
theorem container_reads_after {head : Definition.Head} {words : List Token → List Token}
    (h : ∀ read, words read = head.tokens ++ read) :
    (Grammar.container head).Reads fun form read =>
      words read = form.tokens ∧ form.Proper := by
  refine (container_reads head).mono ?_
  rintro form read ⟨hread, hproper⟩
  exact ⟨(h read).trans hread, hproper⟩

theorem typedef_reads (keyword : Token) :
    (typedef keyword).Reads fun form read =>
      keyword :: read = form.tokens ∧ form.Proper := by
  refine (idlType_reads _).bind ?_
  rintro type _ rfl
  refine (Reads.identifier _).bind ?_
  rintro name _ ⟨rfl, -⟩
  refine Reads.within _ ?_
  refine (Reads.expect ";" _).bind ?_
  rintro semicolon _ ⟨rfl, hsemicolon⟩
  exact .pure ⟨by simp [Definition.Form.tokens], .of_nil rfl hsemicolon⟩

theorem callback_reads (keyword : Token) :
    (callback keyword).Reads fun form read =>
      keyword :: read = form.tokens ∧ form.Proper := by
  refine (Reads.identifier _).bind ?_
  rintro name _ ⟨rfl, -⟩
  refine Reads.within _ ?_
  refine (Reads.expect "=" _).bind ?_
  rintro assign _ ⟨rfl, -⟩
  refine (idlType_reads _).bind ?_
  rintro result _ rfl
  refine (argumentList_reads _).bind ?_
  rintro arguments _ rfl
  refine (Reads.expect ";" _).bind ?_
  rintro semicolon _ ⟨rfl, hsemicolon⟩
  exact .pure ⟨by simp [Definition.Form.tokens], .of_nil rfl hsemicolon⟩

theorem includes_reads :
    includes.Reads fun form read => read = form.tokens ∧ form.Proper := by
  refine (Reads.identifier _).bind ?_
  rintro name _ ⟨rfl, -⟩
  refine Reads.within _ ?_
  refine (Reads.expect "includes" _).bind ?_
  rintro keyword _ ⟨rfl, -⟩
  refine (Reads.identifier _).bind ?_
  rintro mixin _ ⟨rfl, -⟩
  refine (Reads.expect ";" _).bind ?_
  rintro semicolon _ ⟨rfl, hsemicolon⟩
  exact .pure ⟨by simp [Definition.Form.tokens], .of_nil rfl hsemicolon⟩

theorem partialForm_reads (partialWord : Option Token) :
    (partialForm partialWord).Reads fun form read =>
      partialWord.toList ++ read = form.tokens ∧ form.Proper := by
  refine (Reads.eat "interface").bind ?_
  rintro (_ | keyword) _ ⟨rfl, -⟩
  case some =>
    refine (Reads.eat "mixin").bind ?_
    rintro (_ | mixinWord) _ ⟨rfl, -⟩
    · exact container_reads_after fun read => by simp [Definition.Head.tokens]
    · exact container_reads_after fun read => by simp [Definition.Head.tokens]
  refine (Reads.eat "namespace").bind ?_
  rintro (_ | keyword) _ ⟨rfl, -⟩
  case some =>
    exact container_reads_after fun read => by simp [Definition.Head.tokens]
  refine (Reads.eat "dictionary").bind ?_
  rintro (_ | keyword) _ ⟨rfl, -⟩
  case some =>
    exact container_reads_after fun read => by simp [Definition.Head.tokens]
  refine Reads.guard fun hpartial => ?_
  obtain rfl : partialWord = none := by simpa using hpartial
  refine (Reads.eat "enum").bind ?_
  rintro (_ | keyword) _ ⟨rfl, -⟩
  case some => exact container_reads _
  refine (Reads.eat "typedef").bind ?_
  rintro (_ | keyword) _ ⟨rfl, -⟩
  case some => exact typedef_reads keyword
  refine (Reads.seesSecond _).bind ?_
  rintro seen _ rfl
  exact Reads.ite (fun _ => includes_reads) fun _ => .fail

theorem definitionForm_reads :
    definitionForm.Reads fun form read => read = form.tokens ∧ form.Proper := by
  refine (Reads.eat "callback").bind ?_
  rintro (_ | word) _ ⟨rfl, -⟩
  case some =>
    refine (Reads.eat "interface").bind ?_
    rintro (_ | keyword) _ ⟨rfl, -⟩
    · exact callback_reads word
    · exact container_reads _
  refine (Reads.eat "partial").bind ?_
  rintro partialWord _ ⟨rfl, -⟩
  exact partialForm_reads partialWord

/-- A definition holds the tokens it was read from, a semicolon ends it, and its members fit it. -/
theorem definition_reads : definition.Reads fun d read =>
    read = d.tokens ∧ d.form.semicolon.is ";" ∧
      ∀ member ∈ d.members, member.Fits d.kind d.name := by
  refine extAttrs_reads.bind ?_
  rintro attrs _ rfl
  refine definitionForm_reads.bind ?_
  rintro form _ ⟨rfl, hproper⟩
  exact .pure ⟨by simp [Definition.tokens], hproper.semicolon_is, hproper.membersFit⟩

end Grammar

end WebIdl
