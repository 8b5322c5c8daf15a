import WebIdl.Grammar.Definition
import WebIdl.Proofs.Block.RoundTrip
import WebIdl.Proofs.Grammar.Shapes.Members

/-!
# The shape of what is read

* `Grammar.Spelled` — the keywords before the name of a definition with members are those of its
  kind.
* `Grammar.definition_shaped` — a definition that is read has its shape.
* `Block.shaped_parse` — and so have all definitions of a block, whatever its source is.
-/

namespace WebIdl

namespace Grammar

open Rule Definition

/-- After the word `partial`, if it is there, the head has the words of its kind. -/
structure Spelled (head : Head) : Prop where
  partial_is : ∀ t ∈ head.partialWord, t.is "partial"
  texts_eq : head.tokens.map (·.text) = head.partialWord.toList.map (·.text) ++ head.kind.words

theorem Spelled.keywords_eq {head : Head} (h : Spelled head) :
    head.tokens.map (·.text) =
      (if head.isPartial = true then ["partial"] else []) ++ head.kind.words := by
  rw [h.texts_eq, Head.isPartial]
  congr 1
  cases hword : head.partialWord with
  | none => rfl
  | some word => simp [Token.text_of_is (h.partial_is word hword)]

theorem inheritance_shaped (head : Head) :
    (inheritance head).Reads fun parent _ =>
      (∀ p ∈ parent, p.colon.is ":" ∧ p.name.kind = .identifier) ∧
        (head.isPartial = true → parent = none) ∧ (head.kind = .enum → parent = none) := by
  apply Reads.ite
  · intro _
    exact .pure ⟨by simp, fun _ => rfl, fun _ => rfl⟩
  · intro hhead
    have hhead : head.isPartial = false ∧ head.kind ≠ .enum := by simpa using hhead
    apply (Reads.eat ":").bind
    rintro (_ | colon) _ ⟨-, hcolon⟩
    · exact .pure ⟨by simp, fun _ => rfl, fun _ => rfl⟩
    · apply (Reads.identifier _).bind
      rintro name _ ⟨-, hname⟩
      apply Reads.pure
      refine ⟨?_, by simp [hhead.1], fun h => absurd h hhead.2⟩
      simpa using ⟨hcolon colon rfl, hname⟩

/-- Partial heads are those of definitions that can be merged. -/
theorem extensible_of_isPartial {head : Head} (h : head.isPartial = true) :
    head.kind ∈ Kind.extensible := by
  cases head with
  | interface | interfaceMixin | «namespace» | dictionary => simp [Head.kind, Kind.extensible]
  | callbackInterface | «enum» => cases h

theorem container_shaped {head : Head} (hhead : Spelled head) :
    (Grammar.container head).Reads fun form _ => form.Shaped ∧ AllShaped form.nodes := by
  apply (Reads.identifier _).bind
  rintro name _ ⟨-, hname⟩
  apply Reads.within
  apply (inheritance_shaped head).bind
  rintro parent _ ⟨hparent, hpartial, henum⟩
  have body_shaped : (body head name).Reads fun body _ =>
      (body.opening.is "\x7b" ∧ body.closing.is "\x7d" ∧ body.semicolon.is ";") ∧
        (∀ m ∈ body.members, m.Shaped head.kind name.name ∧ AllShaped m.nodes) ∧
          (head.kind = .enum → body.members ≠ [] ∧ SeparatedValues body.members) := by
    apply (Reads.expect "\x7b" _).bind
    rintro opening _ ⟨-, hopening⟩
    apply (members_shaped head.kind name.name).bind
    rintro list _ ⟨hlist, hvalues⟩
    apply (Reads.expect "\x7d" _).bind
    rintro closing _ ⟨-, hclosing⟩
    apply (Reads.expect ";" _).bind
    rintro semicolon _ ⟨-, hsemicolon⟩
    exact .pure ⟨⟨hopening, hclosing, hsemicolon⟩, hlist, hvalues⟩
  apply body_shaped.bind
  rintro body _ ⟨hbraces, hmembers, hvalues⟩
  apply Reads.pure
  refine ⟨⟨?_, hhead.keywords_eq, hname, ?_, ?_, ⟨hparent, hbraces⟩,
    fun m hm => (hmembers m hm).1⟩, ?_⟩
  · cases head <;> simp [Form.IsOf, Form.kind, Head.kind]
  · intro h
    exact ⟨extensible_of_isPartial h, hpartial h⟩
  · intro h
    exact ⟨henum h, hvalues h⟩
  · exact allShaped_flatMap.mpr fun m hm => (hmembers m hm).2

theorem typedef_shaped {keyword : Token} (hkeyword : keyword.is "typedef") :
    (typedef keyword).Reads fun form _ => form.Shaped ∧ AllShaped form.nodes := by
  apply (idlType_shaped _).bind
  intro type _ htype
  apply (Reads.identifier _).bind
  rintro name _ ⟨-, hname⟩
  apply Reads.within
  apply (Reads.expect ";" _).bind
  rintro semicolon _ ⟨-, hsemicolon⟩
  apply Reads.pure
  have hwords : [keyword].map (·.text) = ["typedef"] := by simp [Token.text_of_is hkeyword]
  exact ⟨.of_members_eq_nil rfl rfl (by simp [Form.kind]) rfl hwords hname hsemicolon, htype⟩

theorem callback_shaped {keyword : Token} (hkeyword : keyword.is "callback") :
    (callback keyword).Reads fun form _ => form.Shaped ∧ AllShaped form.nodes := by
  apply (Reads.identifier _).bind
  rintro name _ ⟨-, hname⟩
  apply Reads.within
  apply (Reads.expect "=" _).bind
  rintro assign _ ⟨-, hassign⟩
  apply (idlType_shaped _).bind
  intro result _ hresult
  apply (argumentList_shaped _).bind
  intro arguments _ harguments
  apply (Reads.expect ";" _).bind
  rintro semicolon _ ⟨-, hsemicolon⟩
  apply Reads.pure
  have hwords : [keyword].map (·.text) = ["callback"] := by simp [Token.text_of_is hkeyword]
  exact ⟨.of_members_eq_nil rfl rfl (by simp [Form.kind]) rfl hwords hname ⟨hassign, hsemicolon⟩,
    allShaped_append.mpr ⟨hresult, harguments⟩⟩

theorem includes_shaped :
    includes.Reads fun form _ => form.Shaped ∧ AllShaped form.nodes := by
  apply (Reads.identifier _).bind
  rintro name _ ⟨-, hname⟩
  apply Reads.within
  apply (Reads.expect "includes" _).bind
  rintro keyword _ ⟨-, hkeyword⟩
  apply (Reads.identifier _).bind
  rintro mixin _ ⟨-, hmixin⟩
  apply (Reads.expect ";" _).bind
  rintro semicolon _ ⟨-, hsemicolon⟩
  apply Reads.pure
  exact ⟨.of_members_eq_nil rfl rfl (by simp [Form.kind]) rfl rfl hname
    ⟨hkeyword, hmixin, hsemicolon⟩, allShaped_nil⟩

theorem partialForm_shaped {partialWord : Option Token}
    (hpartial : ∀ t ∈ partialWord, t.is "partial") :
    (partialForm partialWord).Reads fun form _ => form.Shaped ∧ AllShaped form.nodes := by
  apply (Reads.eat "interface").bind
  rintro (_ | keyword) _ ⟨-, hkeyword⟩
  case some =>
    have hkeyword := Token.text_of_is (hkeyword keyword rfl)
    apply (Reads.eat "mixin").bind
    rintro (_ | mixinWord) _ ⟨-, hmixin⟩
    · apply container_shaped
      exact ⟨hpartial, by simp [Head.tokens, Head.partialWord, Head.kind, Kind.words, hkeyword]⟩
    · have hmixin := Token.text_of_is (hmixin mixinWord rfl)
      apply container_shaped
      exact ⟨hpartial, by
        simp [Head.tokens, Head.partialWord, Head.kind, Kind.words, hkeyword, hmixin]⟩
  apply (Reads.eat "namespace").bind
  rintro (_ | keyword) _ ⟨-, hkeyword⟩
  case some =>
    have hkeyword := Token.text_of_is (hkeyword keyword rfl)
    apply container_shaped
    exact ⟨hpartial, by simp [Head.tokens, Head.partialWord, Head.kind, Kind.words, hkeyword]⟩
  apply (Reads.eat "dictionary").bind
  rintro (_ | keyword) _ ⟨-, hkeyword⟩
  case some =>
    have hkeyword := Token.text_of_is (hkeyword keyword rfl)
    apply container_shaped
    exact ⟨hpartial, by simp [Head.tokens, Head.partialWord, Head.kind, Kind.words, hkeyword]⟩
  apply Reads.guard
  intro _
  apply (Reads.eat "enum").bind
  rintro (_ | keyword) _ ⟨-, hkeyword⟩
  case some =>
    have hkeyword := Token.text_of_is (hkeyword keyword rfl)
    apply container_shaped
    refine ⟨by simp [Head.partialWord], ?_⟩
    simp [Head.tokens, Head.partialWord, Head.kind, Kind.words, hkeyword]
  apply (Reads.eat "typedef").bind
  rintro (_ | keyword) _ ⟨-, hkeyword⟩
  case some => exact typedef_shaped (hkeyword keyword rfl)
  apply (Reads.seesSecond _).bind
  intro _ _ _
  exact Reads.ite (fun _ => includes_shaped) fun _ => .fail

theorem definitionForm_shaped :
    definitionForm.Reads fun form _ => form.Shaped ∧ AllShaped form.nodes := by
  apply (Reads.eat "callback").bind
  rintro (_ | word) _ ⟨-, hword⟩
  case some =>
    have hword := hword word rfl
    apply (Reads.eat "interface").bind
    rintro (_ | keyword) _ ⟨-, hkeyword⟩
    · exact callback_shaped hword
    · have hkeyword := Token.text_of_is (hkeyword keyword rfl)
      apply container_shaped
      refine ⟨by simp [Head.partialWord], ?_⟩
      simp [Head.tokens, Head.partialWord, Head.kind, Kind.words, Token.text_of_is hword, hkeyword]
  apply (Reads.eat "partial").bind
  rintro partialWord _ ⟨-, hpartial⟩
  exact partialForm_shaped hpartial

theorem definition_shaped : definition.Reads fun d _ => d.Shaped := by
  apply extAttrs_shaped.bind
  intro attrs _ hattrs
  apply definitionForm_shaped.bind
  rintro form _ ⟨hform, hnodes⟩
  exact .pure ⟨hform, allShaped_append.mpr ⟨hattrs, hnodes⟩⟩

end Grammar

/-! ### Blocks -/

namespace Block

theorem Completed.shaped {tokens rest : List Token} {definitions : List Definition}
    (h : Completed tokens definitions rest) : ∀ d ∈ definitions, d.Shaped := by
  induction h with
  | done => simp
  | step hd _ ih =>
    obtain ⟨-, -, hshaped⟩ := Grammar.definition_shaped hd
    exact List.forall_mem_cons.mpr ⟨hshaped, ih⟩

/-- **Whatever the source of a block is, its definitions have their shape, and so have their members
and all that is nested in them.** -/
theorem shaped_parse (source : String) (scope : Option String) :
    ∀ d ∈ (parse source scope).definitions, d.Shaped := by
  obtain ⟨rest, hrun, -⟩ := completed_parse source scope
  exact hrun.shaped

/-- An argument with a union in an extended attribute, and a declaration with arguments. -/
def nestedSource : String :=
  "partial interface A { [X(sequence<([Y] B or C?)> z)] async iterable<D>(optional E e = null); };"

/-- The definition is partial, and its shape is that of all nodes in it. -/
theorem shaped_parse_nested :
    ∃ d ∈ (parse nestedSource none).definitions,
      d.isPartial = true ∧ d.nodes.length = 14 ∧ d.Shaped := by
  have hread : ∃ d ∈ (parse nestedSource none).definitions,
      d.isPartial = true ∧ d.nodes.length = 14 := by
    decide +kernel
  obtain ⟨d, hd, hpartial, hnodes⟩ := hread
  exact ⟨d, hd, hpartial, hnodes, shaped_parse nestedSource none d hd⟩

end Block

end WebIdl
