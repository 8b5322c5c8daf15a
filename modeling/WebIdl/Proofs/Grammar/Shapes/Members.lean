import Mathlib.Data.List.Sublists
import WebIdl.Proofs.Grammar.Shapes.Nested
import WebIdl.Proofs.Grammar.Statements

/-!
# The shape of what the rules for members give

* `mem_operations`, `mem_declarations` — the words of an operation or a declaration settle its kind.
* `operation_of_sublist` — which words are left before an operation.
* `members_shaped` — the members in braces have the shape that the definition asks for, and the
  values of an enumeration have commas between them.
-/

namespace WebIdl.Grammar

open Rule Member

/-! ### Members of interfaces, mixins and namespaces -/

variable {container : Definition.Kind}

theorem constructorForm_shaped (hc : container != .dictionary && container != .enum)
    {keyword : Token} (hkeyword : keyword.is "constructor") :
    (constructorForm keyword).Reads fun form _ =>
      form.Shaped container ∧ AllShaped form.nodes := by
  apply (argumentList_shaped _).bind
  intro arguments _ harguments
  apply (Reads.expect ";" _).bind
  rintro semicolon _ ⟨-, hsemicolon⟩
  apply Reads.pure
  exact ⟨.of hc ⟨rfl, hkeyword⟩ trivial (Form.kind_identifier_of_eq_none rfl) hsemicolon,
    harguments⟩

theorem attributeForm_shaped (hc : container != .dictionary && container != .enum)
    {words : List Token} {keyword : Token}
    (hwords : (words.map (·.text)).Sublist ["static", "stringifier", "inherit", "readonly"])
    (hkeyword : keyword.is "attribute") :
    (attributeForm words keyword).Reads fun form _ =>
      form.Shaped container ∧ AllShaped form.nodes := by
  apply (idlType_shaped _).bind
  intro type _ htype
  apply (Reads.identifier _).bind
  rintro name _ ⟨-, hname⟩
  apply (Reads.expect ";" _).bind
  rintro semicolon _ ⟨-, hsemicolon⟩
  apply Reads.pure
  refine ⟨.of hc ⟨rfl, hkeyword⟩ trivial ?_ ⟨hwords, hsemicolon⟩, htype⟩
  simpa [Form.identifier?] using hname

theorem operationForm_shaped (hc : container != .dictionary && container != .enum)
    {words : List Token}
    (hwords : (Kind.ofModifiers words, words.map (·.text)) ∈ Kind.operations)
    (hnamespace : container = .namespace →
      Kind.ofModifiers words ∉ [.getter, .setter, .deleter]) :
    (operationForm words).Reads fun form _ =>
      form.Shaped container ∧ AllShaped form.nodes := by
  apply (idlType_shaped _).bind
  intro type _ htype
  apply (Reads.eatIf _).bind
  rintro name _ ⟨-, hname⟩
  apply (argumentList_shaped _).bind
  intro arguments _ harguments
  apply (Reads.expect ";" _).bind
  rintro semicolon _ ⟨-, hsemicolon⟩
  apply Reads.pure
  refine ⟨.of hc hwords hnamespace ?_ hsemicolon, allShaped_append.mpr ⟨htype, harguments⟩⟩
  simpa [Form.identifier?] using hname

theorem constantForm_shaped (hc : container != .dictionary && container != .enum)
    {keyword : Token} (hkeyword : keyword.is "const") :
    (constantForm keyword).Reads fun form _ =>
      form.Shaped container ∧ AllShaped form.nodes := by
  apply (idlType_shaped _).bind
  intro type _ htype
  apply (Reads.identifier _).bind
  rintro name _ ⟨-, hname⟩
  apply (Reads.expect "=" _).bind
  rintro assign _ ⟨-, hassign⟩
  apply (literal_shaped _).bind
  intro value _ hvalue
  apply (Reads.expect ";" _).bind
  rintro semicolon _ ⟨-, hsemicolon⟩
  apply Reads.pure
  refine ⟨.of hc ⟨rfl, hkeyword⟩ trivial ?_ ⟨hassign, hvalue, hsemicolon⟩, htype⟩
  simpa [Form.identifier?] using hname

/-- The kind of a declaration is settled by what its words and its keyword say. -/
theorem mem_declarations {words : List Token} {keyword : Token}
    (h : (words.map (·.text), keyword.text) ∈ Kind.declarations.map (·.2)) :
    (Kind.ofDeclaration words keyword, words.map (·.text), keyword.text) ∈
      Kind.declarations := by
  have hasync : words.any (·.text == "async") = (words.map (·.text)).any (· == "async") := by
    rw [List.any_map]
    rfl
  rw [Kind.ofDeclaration, hasync]
  revert h
  generalize words.map (·.text) = texts
  generalize keyword.text = text
  intro h
  have hall : ∀ said ∈ Kind.declarations.map (·.2),
      ((if said.2 == "maplike" then Kind.maplike
        else if said.2 == "setlike" then .setlike
        else if said.1.any (· == "async") then .asyncIterable
        else .iterable), said.1, said.2) ∈ Kind.declarations := by
    decide
  exact hall (texts, text) h

/-- What a declaration of its kind asks for is what declarations of the kind take. -/
theorem mem_typeCounts {kind : Kind} {words : List String} {keyword : String} {count : Nat}
    (h : (kind, words, keyword) ∈ Kind.declarations) (hleast : (declarationArity kind).1 ≤ count)
    (hmost : count ≤ (declarationArity kind).2) : count ∈ kind.typeCounts := by
  have hkinds : ∀ entry ∈ Kind.declarations,
      entry.1 ∈ [.iterable, .asyncIterable, .maplike, .setlike] := by
    decide
  have hkind := hkinds _ h
  cases kind with
  | iterable | asyncIterable | maplike | setlike =>
    simp only [declarationArity, Kind.typeCounts, List.mem_cons, List.not_mem_nil] at *
    omega
  | _ => simp at hkind

theorem declarationForm_shaped (hc : container != .dictionary && container != .enum)
    {words : List Token} {keyword : Token}
    (hkeyword : (Kind.ofDeclaration words keyword, words.map (·.text), keyword.text) ∈
      Kind.declarations) :
    (declarationForm words keyword).Reads fun form _ =>
      form.Shaped container ∧ AllShaped form.nodes := by
  apply (Reads.expect "<" _).bind
  rintro opening _ ⟨-, hopening⟩
  apply (separated_by "," (idlType_shaped _)).bind
  rintro types _ ⟨hby, htypes⟩
  apply Reads.guard
  intro hcount
  have hcount : types.items.length ∈ (Kind.ofDeclaration words keyword).typeCounts := by
    have harity : (declarationArity (.ofDeclaration words keyword)).1 ≤ types.items.length ∧
        types.items.length ≤ (declarationArity (.ofDeclaration words keyword)).2 := by
      simpa [declarationArity] using hcount
    exact mem_typeCounts hkeyword harity.1 harity.2
  apply (Reads.expect ">" _).bind
  rintro closing _ ⟨-, hclosing⟩
  have ended {arguments : Option ArgumentList}
      (hasync : arguments.isSome = true → Kind.ofDeclaration words keyword = .asyncIterable)
      (harguments : AllShaped (arguments.elim [] (·.nodes))) :
      Reads (do
        return Form.declaration words keyword opening types closing arguments
          (← expect ";" (.declarationUnended keyword.text)))
        fun form _ => form.Shaped container ∧ AllShaped form.nodes := by
    apply (Reads.expect ";" _).bind
    rintro semicolon _ ⟨-, hsemicolon⟩
    apply Reads.pure
    refine ⟨.of hc hkeyword ⟨hcount, hasync⟩ (Form.kind_identifier_of_eq_none rfl)
      ⟨hopening, hby, hclosing, hsemicolon⟩, ?_⟩
    rw [Form.nodes, typeNodes_eq, allShaped_append]
    exact ⟨allShaped_flatMap.mpr htypes, harguments⟩
  apply (Reads.sees _).bind
  rintro parenthesis _ -
  apply Reads.ite
  · intro hasync
    have arguments_shaped : (some <$> argumentList .declarationNoArguments).Reads
        fun arguments _ => AllShaped (arguments.elim [] (·.nodes)) :=
      (argumentList_shaped _).map fun _ _ h => h
    apply arguments_shaped.bind
    intro arguments _ harguments
    exact ended (fun _ => (by simpa using hasync : _ ∧ _).1) harguments
  · intro _
    rw [pure_bind]
    exact ended (by simp) allShaped_nil

/-! ### Modifiers -/

/-- The kind of an operation is settled by what its words say. -/
theorem ofModifiers_eq (words : List Token) :
    Kind.ofModifiers words = ((words.map (·.text)).findSome? Kind.ofSpecial?).getD .operation := by
  rw [Kind.ofModifiers, List.findSome?_map]
  rfl

theorem mem_operations {words : List Token}
    (h : words.map (·.text) ∈ Kind.operations.map (·.2)) :
    (Kind.ofModifiers words, words.map (·.text)) ∈ Kind.operations := by
  rw [ofModifiers_eq]
  revert h
  generalize words.map (·.text) = texts
  revert texts
  decide

theorem sublist_texts {token : Option Token} {word : String} (h : ∀ t ∈ token, t.is word) :
    (token.toList.map (·.text)).Sublist [word] := by
  cases token with
  | none => exact List.nil_sublist _
  | some token => simp [Token.text_of_is (h token rfl)]

theorem modifiers_texts : modifiers.Reads fun words _ =>
    (words.map (·.text)).Sublist ["static", "stringifier", "inherit", "readonly"] := by
  apply (Reads.eat "static").bind
  rintro staticWord _ ⟨-, hstatic⟩
  apply (Reads.eat "stringifier").bind
  rintro stringifierWord _ ⟨-, hstringifier⟩
  apply (Reads.eat "inherit").bind
  rintro inheritWord _ ⟨-, hinherit⟩
  apply (Reads.eat "readonly").bind
  rintro readonlyWord _ ⟨-, hreadonly⟩
  apply Reads.pure
  simp only [List.map_append]
  exact (((sublist_texts hstatic).append (sublist_texts hstringifier)).append
    (sublist_texts hinherit)).append (sublist_texts hreadonly)

theorem specialWord_texts : specialWord.Reads fun words _ =>
    words.map (·.text) ∈ [[], ["getter"], ["setter"], ["deleter"]] := by
  apply (Reads.eatIf _).bind
  rintro (_ | word) _ ⟨-, hword⟩
  · exact .pure List.mem_cons_self
  · apply Reads.pure
    have hword := hword word rfl
    simp only [Bool.or_eq_true] at hword
    rcases hword with (h | h) | h <;> simp [Token.text_of_is h]

/-- The words that are left before an operation make no special operation. -/
theorem operation_of_sublist {texts : List String}
    (h : texts.Sublist ["static", "stringifier", "inherit", "readonly"])
    (hreadonly : "readonly" ∉ texts) (hinherit : "inherit" ∉ texts) :
    texts ∈ Kind.operations.map (·.2) ∧
      (texts.findSome? Kind.ofSpecial?).getD .operation ∉ [.getter, .setter, .deleter] := by
  have hall : ∀ texts ∈ List.sublists ["static", "stringifier", "inherit", "readonly"],
      "readonly" ∉ texts → "inherit" ∉ texts →
        texts ∈ Kind.operations.map (·.2) ∧
          (texts.findSome? Kind.ofSpecial?).getD .operation ∉ [.getter, .setter, .deleter] := by
    decide
  exact hall texts (List.mem_sublists.mpr h) hreadonly hinherit

theorem modifiedMember_shaped (hc : container != .dictionary && container != .enum) :
    (modifiedMember container).Reads fun form _ =>
      form.Shaped container ∧ AllShaped form.nodes := by
  apply modifiers_texts.bind
  intro words _ hwords
  apply (Reads.eat "attribute").bind
  rintro (_ | keyword) _ ⟨-, hkeyword⟩
  · apply Reads.guard
    intro hleft
    have hleft : "readonly" ∉ words.map (·.text) ∧ "inherit" ∉ words.map (·.text) := by
      simpa [not_or, forall_and] using hleft
    obtain ⟨hoperation, hspecial⟩ := operation_of_sublist hwords hleft.1 hleft.2
    apply Reads.ite
    · intro hnone
      have hnone : words = [] ∧ container ≠ .namespace := by simpa using hnone
      apply specialWord_texts.bind
      intro word _ hword
      apply operationForm_shaped hc (mem_operations ?_) fun h => absurd h hnone.2
      revert hword
      generalize word.map (·.text) = texts
      revert texts
      decide
    · intro _
      apply operationForm_shaped hc (mem_operations hoperation)
      rw [ofModifiers_eq]
      exact fun _ => hspecial
  · exact attributeForm_shaped hc hwords (hkeyword keyword rfl)

theorem interfaceMemberForm_shaped (hc : container != .dictionary && container != .enum) :
    (interfaceMemberForm container).Reads fun form _ =>
      form.Shaped container ∧ AllShaped form.nodes := by
  apply (Reads.eat "const").bind
  rintro (_ | keyword) _ ⟨-, hconst⟩
  case some => exact constantForm_shaped hc (hconst keyword rfl)
  apply (Reads.eatBefore _ _).bind
  rintro (_ | keyword) _ ⟨-, hconstructor⟩
  case some => exact constructorForm_shaped hc (hconstructor keyword rfl)
  apply (Reads.eatPair _ _).bind
  rintro (_ | ⟨keyword, semicolon⟩) _ ⟨-, hbare⟩
  case some =>
    obtain ⟨hkeyword, hsemicolon⟩ := hbare _ rfl
    apply Reads.pure
    exact ⟨.of hc ⟨rfl, hkeyword⟩ trivial (Form.kind_identifier_of_eq_none rfl) hsemicolon,
      allShaped_nil⟩
  apply (Reads.eatIf _).bind
  rintro (_ | keyword) _ ⟨-, hkeyword⟩
  case some =>
    apply declarationForm_shaped hc (mem_declarations ?_)
    have hkeyword := hkeyword keyword rfl
    simp only [Bool.or_eq_true] at hkeyword
    rcases hkeyword with (h | h) | h <;> simp [Token.text_of_is h, Kind.declarations]
  apply (Reads.eatPair _ _).bind
  rintro (_ | ⟨word, keyword⟩) _ ⟨-, hasync⟩
  case some =>
    obtain ⟨hword, hkeyword⟩ : word.is "async" ∧ keyword.is "iterable" := hasync _ rfl
    apply declarationForm_shaped hc (mem_declarations ?_)
    simp [Token.text_of_is hword, Token.text_of_is hkeyword, Kind.declarations]
  apply (Reads.eatPair _ _).bind
  rintro (_ | ⟨word, keyword⟩) _ ⟨-, hreadonly⟩
  case some =>
    obtain ⟨hword, hkeyword⟩ : word.is "readonly" ∧
        (keyword.is "maplike" || keyword.is "setlike") := hreadonly _ rfl
    apply declarationForm_shaped hc (mem_declarations ?_)
    rcases Bool.or_eq_true_iff.mp hkeyword with h | h <;>
      simp [Token.text_of_is hword, Token.text_of_is h, Kind.declarations]
  exact modifiedMember_shaped hc

theorem interfaceMember_shaped (hc : container != .dictionary && container != .enum)
    (scope : String) :
    (interfaceMember container scope).Reads fun member _ =>
      member.Shaped container scope ∧ AllShaped member.nodes := by
  apply extAttrs_shaped.bind
  intro attrs _ hattrs
  apply (interfaceMemberForm_shaped hc).bind
  rintro form _ ⟨hform, hnodes⟩
  exact .pure ⟨⟨rfl, hform⟩, allShaped_append.mpr ⟨hattrs, hnodes⟩⟩

/-! ### Fields and enumeration values -/

theorem field_shaped (scope : String) :
    (field scope).Reads fun member _ =>
      member.Shaped .dictionary scope ∧ AllShaped member.nodes := by
  apply extAttrs_shaped.bind
  intro attrs _ hattrs
  apply (Reads.eat "required").bind
  rintro required _ ⟨-, hrequired⟩
  apply (idlType_shaped _).bind
  intro type _ htype
  apply (Reads.identifier _).bind
  rintro name _ ⟨-, hname⟩
  apply default?_shaped.bind
  intro default _ hdefault
  apply Reads.guard
  intro hboth
  have hboth : required.isSome = true → default = none := by simpa using hboth
  apply (Reads.expect ";" _).bind
  rintro semicolon _ ⟨-, hsemicolon⟩
  apply Reads.pure
  refine ⟨⟨rfl, .of rfl rfl hboth ?_ ⟨hrequired, hdefault, hsemicolon⟩⟩, ?_⟩
  · simpa [Form.identifier?] using hname
  · exact allShaped_append.mpr ⟨hattrs, htype⟩

/-- Between values stand commas. -/
def SeparatedValues (values : List Member) : Prop :=
  ∀ value ∈ values.dropLast, value.form.hasSeparator = true

@[simp] theorem separatedValues_nil : SeparatedValues [] := by simp [SeparatedValues]

@[simp] theorem separatedValues_singleton (value : Member) : SeparatedValues [value] := by
  simp [SeparatedValues]

theorem SeparatedValues.cons {value : Member} {values : List Member}
    (hvalue : value.form.hasSeparator = true) (h : SeparatedValues values) :
    SeparatedValues (value :: values) := by
  cases values with
  | nil => simp
  | cons second values => exact List.forall_mem_cons.mpr ⟨hvalue, h⟩

theorem enumValue_shaped {scope : String} {value : Token} {separator : Option Token}
    (hvalue : value.kind = .string) (hseparator : ∀ t ∈ separator, t.is ",") :
    (⟨none, scope, .enumValue value separator⟩ : Member).Shaped .enum scope ∧
      AllShaped (⟨none, scope, .enumValue value separator⟩ : Member).nodes :=
  ⟨⟨rfl, .of rfl rfl trivial (Form.kind_identifier_of_eq_none rfl) ⟨hvalue, hseparator⟩⟩,
    allShaped_nil⟩

theorem enumValuesUpTo_shaped (scope : String) (bound : Nat) :
    (enumValuesUpTo scope bound).Reads fun values _ =>
      (∀ value ∈ values, value.Shaped .enum scope ∧ AllShaped value.nodes) ∧
        SeparatedValues values := by
  induction bound with
  | zero =>
    unfold enumValuesUpTo
    exact .pure (by simp)
  | succ bound ih =>
    unfold enumValuesUpTo
    apply (Reads.eatIf _).bind
    rintro (_ | value) _ ⟨-, hvalue⟩
    · exact .pure (by simp)
    · have hstring : value.kind = .string := by simpa using hvalue
      apply (Reads.eat ",").bind
      rintro (_ | separator) _ ⟨-, hseparator⟩
      · apply Reads.pure
        refine ⟨?_, separatedValues_singleton _⟩
        simpa using enumValue_shaped hstring hseparator
      · apply ih.bind
        rintro values _ ⟨hvalues, hseparated⟩
        apply Reads.pure
        refine ⟨List.forall_mem_cons.mpr ⟨enumValue_shaped hstring hseparator, hvalues⟩, ?_⟩
        exact hseparated.cons rfl

theorem enumValues_shaped (scope : String) :
    (enumValues scope).Reads fun values _ =>
      (∀ value ∈ values, value.Shaped .enum scope ∧ AllShaped value.nodes) ∧
        values ≠ [] ∧ SeparatedValues values := by
  apply (Reads.bounded (enumValuesUpTo_shaped scope)).bind
  rintro values _ ⟨hvalues, hseparated⟩
  apply Reads.guard
  intro hempty
  exact .pure ⟨hvalues, by simpa using hempty, hseparated⟩

/-! ### Members in braces -/

/-- The members in braces have the shape that the definition asks for, and an enumeration has values
with commas between them. -/
theorem members_shaped (container : Definition.Kind) (scope : String) :
    (members container scope).Reads fun list _ =>
      (∀ member ∈ list, member.Shaped container scope ∧ AllShaped member.nodes) ∧
        (container = .enum → list ≠ [] ∧ SeparatedValues list) := by
  unfold members
  split
  · apply (enumValues_shaped scope).mono
    rintro values _ ⟨hvalues, hseparated⟩
    exact ⟨hvalues, fun _ => hseparated⟩
  · have item := ((field_reads scope).mono fun _ _ h => h.1).and (field_shaped scope)
    apply (Reads.repeated _ item).mono
    rintro list _ ⟨-, hlist⟩
    exact ⟨hlist, by simp⟩
  · have hc : container ≠ .dictionary ∧ container ≠ .enum := ⟨‹_›, ‹_›⟩
    have item := ((interfaceMember_reads hc scope).mono fun _ _ h => h.1).and
      (interfaceMember_shaped (by simpa using hc) scope)
    apply (Reads.repeated _ item).mono
    rintro list _ ⟨-, hlist⟩
    exact ⟨hlist, fun h => absurd h hc.2⟩

end WebIdl.Grammar
