import WebIdl.Proofs.Lexing
import WebIdl.Syntax.Definition

/-!
# The tokens of a definition

The first token of a definition is found by cases on what stands in it. It is the one that the
tokens start with (`Definition.tokens_eq_cons`), so the definition is its leading trivia and then
its source text (`Definition.written_tokens`), and taking away what is before the first token leaves
every other token alone (`Definition.tokens_bare`).
-/

namespace WebIdl

theorem Member.tokens_ne_nil (m : Member) : m.tokens ≠ [] := by
  obtain ⟨attrs, scope, form⟩ := m
  cases form <;> simp [Member.tokens, Member.Form.tokens]

namespace Definition

theorem Head.tokens_eq_cons (head : Head) : head.tokens = head.first :: head.tokens.drop 1 := by
  rcases head with ⟨_ | _, _⟩ | ⟨_ | _, _, _⟩ | ⟨_, _⟩ | ⟨_ | _, _⟩ | ⟨_ | _, _⟩ | _ <;> rfl

theorem Head.tokens_bare (head : Head) :
    head.bare.tokens = head.first.bare :: head.tokens.drop 1 := by
  rcases head with ⟨_ | _, _⟩ | ⟨_ | _, _, _⟩ | ⟨_, _⟩ | ⟨_ | _, _⟩ | ⟨_ | _, _⟩ | _ <;> rfl

@[simp] theorem Head.kind_bare (head : Head) : head.bare.kind = head.kind := by
  rcases head with ⟨_ | _, _⟩ | ⟨_ | _, _, _⟩ | ⟨_, _⟩ | ⟨_ | _, _⟩ | ⟨_ | _, _⟩ | _ <;> rfl

@[simp] theorem Head.isPartial_bare (head : Head) : head.bare.isPartial = head.isPartial := by
  rcases head with ⟨_ | _, _⟩ | ⟨_ | _, _, _⟩ | ⟨_, _⟩ | ⟨_ | _, _⟩ | ⟨_ | _, _⟩ | _ <;> rfl

theorem Form.tokens_eq_cons (form : Form) : form.tokens = form.first :: form.tokens.drop 1 := by
  cases form with
  | container head name parent body =>
    rw [tokens, head.tokens_eq_cons]
    rfl
  | typedef keyword type name semicolon => rfl
  | callback keyword name assign result arguments semicolon => rfl
  | includes name keyword mixin semicolon => rfl

theorem Form.tokens_bare (form : Form) :
    form.bare.tokens = form.first.bare :: form.tokens.drop 1 := by
  cases form with
  | container head name parent body =>
    rw [bare, tokens, tokens, head.tokens_bare, head.tokens_eq_cons]
    rfl
  | typedef keyword type name semicolon => rfl
  | callback keyword name assign result arguments semicolon => rfl
  | includes name keyword mixin semicolon => rfl

theorem tokens_eq_cons (d : Definition) : d.tokens = d.first :: d.tokens.drop 1 := by
  obtain ⟨_ | ⟨opening, items, closing⟩, form⟩ := d
  · exact form.tokens_eq_cons
  · simp [tokens, first, ExtAttrList.tokens, ExtAttrList.opening]

theorem tokens_ne_nil (d : Definition) : d.tokens ≠ [] := by
  rw [d.tokens_eq_cons]
  exact List.cons_ne_nil _ _

theorem getLast?_tokens (d : Definition) : d.tokens.getLast? = some d.form.semicolon := by
  obtain ⟨attrs, form⟩ := d
  cases form <;> simp [tokens, Form.tokens, Body.tokens, Form.semicolon, List.getLast?_cons]

/-- The tokens of a member are tokens of the definition that it stands in. -/
theorem mem_tokens_of_mem_members {d : Definition} {m : Member} (hm : m ∈ d.members)
    {token : Token} (htoken : token ∈ m.tokens) : token ∈ d.tokens := by
  obtain ⟨attrs, form⟩ := d
  cases form with
  | container head name parent body =>
    have : token ∈ body.members.flatMap (·.tokens) := List.mem_flatMap.mpr ⟨m, hm, htoken⟩
    simp only [tokens, Form.tokens, Body.tokens, List.mem_append, List.mem_cons]
    exact .inr (.inr (.inr (.inr (.inr (.inl this)))))
  | typedef | callback | includes => cases hm

theorem tokens_bare (d : Definition) : d.bare.tokens = d.first.bare :: d.tokens.drop 1 := by
  obtain ⟨_ | ⟨opening, items, closing⟩, form⟩ := d
  · exact form.tokens_bare
  · simp [tokens, bare, first, ExtAttrList.tokens, ExtAttrList.bare, ExtAttrList.opening]

/-- A definition in the source is its leading trivia and then its source text. -/
theorem written_tokens (d : Definition) : written d.tokens = d.leadingTrivia ++ d.sourceText := by
  rw [d.tokens_eq_cons, written_cons, Token.written, leadingTrivia, sourceText, String.append_assoc]

theorem written_tokens_bare (d : Definition) : written d.bare.tokens = d.sourceText := by
  rw [d.tokens_bare, written_cons, sourceText]
  simp [Token.written, Token.bare]

/-! ### What a definition says without its leading trivia -/

@[simp] theorem kind_bare (d : Definition) : d.bare.kind = d.kind := by
  obtain ⟨_ | attrs, form⟩ := d
  · cases form <;> simp [bare, kind, Form.bare, Form.kind]
  · rfl

@[simp] theorem isPartial_bare (d : Definition) : d.bare.isPartial = d.isPartial := by
  obtain ⟨_ | attrs, form⟩ := d
  · cases form <;> simp [bare, isPartial, Form.bare, Form.isPartial]
  · rfl

@[simp] theorem name_bare (d : Definition) : d.bare.name = d.name := by
  obtain ⟨_ | attrs, form⟩ := d
  · cases form <;> rfl
  · rfl

@[simp] theorem members_bare (d : Definition) : d.bare.members = d.members := by
  obtain ⟨_ | attrs, form⟩ := d
  · cases form <;> rfl
  · rfl

end Definition

end WebIdl
