import WebIdl.Proofs.Syntax.Tokens

/-!
# Words of type names

The tokens of a node, with the words of type names after the first told from all others.

* `Word`, `Definition.words` — the tokens with what they are in type names.
* `Definition.map_token_words` — they are the tokens of the node, in their order.
* `Definition.words_bare` — taking away what is before the first token leaves all others alone.
-/

namespace WebIdl

/-- A token, and whether it is a word of a type name other than the first. -/
structure Word where
  token : Token
  later : Bool
deriving DecidableEq, Repr

/-- Tokens that are not in a name of several words, or the first of it. -/
def plain (tokens : List Token) : List Word := tokens.map (⟨·, false⟩)

@[simp] theorem plain_nil : plain [] = [] := rfl

@[simp] theorem plain_cons (t : Token) (ts : List Token) :
    plain (t :: ts) = ⟨t, false⟩ :: plain ts := rfl

@[simp] theorem plain_append (xs ys : List Token) : plain (xs ++ ys) = plain xs ++ plain ys :=
  List.map_append

@[simp] theorem map_token_plain (ts : List Token) : (plain ts).map Word.token = ts := by
  simp [plain, Function.comp_def]

theorem plain_separated (items : Separated Token) :
    plain (items.tokens ([·])) = items.flatMap (fun t => plain [t]) fun t => plain [t] := by
  induction items with
  | last t => rfl
  | cons t separator rest ih => simp [Separated.tokens, Separated.flatMap, ih]

/-! ### Types, arguments and extended attributes -/

mutual

def ExtAttrList.words : ExtAttrList → List Word
  | .mk opening items closing => ⟨opening, false⟩ :: (extAttrWords items ++ plain [closing])

def extAttrWords : Separated ExtAttr → List Word
  | .last attr => attr.words
  | .cons attr separator rest => attr.words ++ ⟨separator, false⟩ :: extAttrWords rest

def ExtAttr.words : ExtAttr → List Word
  | .mk name assignment none => plain (name :: assignment.elim [] (·.tokens))
  | .mk name assignment (some arguments) =>
    plain (name :: assignment.elim [] (·.tokens)) ++ arguments.words

def ArgumentList.words : ArgumentList → List Word
  | .mk opening none closing => plain [opening, closing]
  | .mk opening (some items) closing =>
    ⟨opening, false⟩ :: (argumentWords items ++ plain [closing])

def argumentWords : Separated Argument → List Word
  | .last argument => argument.words
  | .cons argument separator rest => argument.words ++ ⟨separator, false⟩ :: argumentWords rest

def Argument.words : Argument → List Word
  | .required none type variadic name => type.words ++ plain (variadic.toList ++ [name])
  | .required (some attrs) type variadic name =>
    attrs.words ++ type.words ++ plain (variadic.toList ++ [name])
  | .optional none keyword type name default =>
    ⟨keyword, false⟩ :: (type.words ++ plain (name :: default.elim [] (·.tokens)))
  | .optional (some attrs) keyword type name default =>
    attrs.words ++ ⟨keyword, false⟩ :: (type.words ++ plain (name :: default.elim [] (·.tokens)))

def IdlType.words : IdlType → List Word
  | .mk none form nullable => form.words ++ plain nullable.toList
  | .mk (some attrs) form nullable => attrs.words ++ form.words ++ plain nullable.toList

def TypeForm.words : TypeForm → List Word
  | .named first rest => ⟨first, false⟩ :: rest.map (⟨·, true⟩)
  | .generic name opening arguments closing =>
    plain [name, opening] ++ (typeWords arguments ++ plain [closing])
  | .union opening first separator rest closing =>
    ⟨opening, false⟩ :: (first.words ++ ⟨separator, false⟩ :: (typeWords rest ++ plain [closing]))

def typeWords : Separated IdlType → List Word
  | .last type => type.words
  | .cons type separator rest => type.words ++ ⟨separator, false⟩ :: typeWords rest

end

mutual

@[simp] theorem ExtAttrList.map_token_words (list : ExtAttrList) :
    list.words.map Word.token = list.tokens := by
  match list with
  | .mk opening items closing =>
    simp [ExtAttrList.words, ExtAttrList.tokens, map_token_extAttrWords items]

theorem map_token_extAttrWords (items : Separated ExtAttr) :
    (extAttrWords items).map Word.token = extAttrTokens items := by
  match items with
  | .last attr => simp [extAttrWords, extAttrTokens, attr.map_token_words]
  | .cons attr separator rest =>
    simp [extAttrWords, extAttrTokens, attr.map_token_words, map_token_extAttrWords rest]

theorem ExtAttr.map_token_words (attr : ExtAttr) : attr.words.map Word.token = attr.tokens := by
  match attr with
  | .mk name assignment none => simp [ExtAttr.words, ExtAttr.tokens]
  | .mk name assignment (some arguments) =>
    simp [ExtAttr.words, ExtAttr.tokens, arguments.map_token_words]

@[simp] theorem ArgumentList.map_token_words (list : ArgumentList) :
    list.words.map Word.token = list.tokens := by
  match list with
  | .mk opening none closing => simp [ArgumentList.words, ArgumentList.tokens]
  | .mk opening (some items) closing =>
    simp [ArgumentList.words, ArgumentList.tokens, map_token_argumentWords items]

theorem map_token_argumentWords (items : Separated Argument) :
    (argumentWords items).map Word.token = argumentTokens items := by
  match items with
  | .last a => simp [argumentWords, argumentTokens, a.map_token_words]
  | .cons a separator rest =>
    simp [argumentWords, argumentTokens, a.map_token_words, map_token_argumentWords rest]

theorem Argument.map_token_words (a : Argument) : a.words.map Word.token = a.tokens := by
  match a with
  | .required none type variadic name =>
    simp [Argument.words, Argument.tokens, type.map_token_words]
  | .required (some attrs) type variadic name =>
    simp [Argument.words, Argument.tokens, attrs.map_token_words, type.map_token_words]
  | .optional none keyword type name default =>
    simp [Argument.words, Argument.tokens, type.map_token_words]
  | .optional (some attrs) keyword type name default =>
    simp [Argument.words, Argument.tokens, attrs.map_token_words, type.map_token_words]

@[simp] theorem IdlType.map_token_words (type : IdlType) :
    type.words.map Word.token = type.tokens := by
  match type with
  | .mk none form nullable => simp [IdlType.words, IdlType.tokens, form.map_token_words]
  | .mk (some attrs) form nullable =>
    simp [IdlType.words, IdlType.tokens, attrs.map_token_words, form.map_token_words]

theorem TypeForm.map_token_words (form : TypeForm) : form.words.map Word.token = form.tokens := by
  match form with
  | .named first rest => simp [TypeForm.words, TypeForm.tokens, Function.comp_def]
  | .generic name opening arguments closing =>
    simp [TypeForm.words, TypeForm.tokens, map_token_typeWords arguments]
  | .union opening first separator rest closing =>
    simp [TypeForm.words, TypeForm.tokens, first.map_token_words, map_token_typeWords rest]

@[simp] theorem map_token_typeWords (types : Separated IdlType) :
    (typeWords types).map Word.token = typeTokens types := by
  match types with
  | .last type => simp [typeWords, typeTokens, type.map_token_words]
  | .cons type separator rest =>
    simp [typeWords, typeTokens, type.map_token_words, map_token_typeWords rest]

end

theorem typeWords_eq (types : Separated IdlType) :
    typeWords types = types.flatMap IdlType.words fun t => plain [t] := by
  induction types with
  | last type => simp [typeWords, Separated.flatMap]
  | cons type separator rest ih => simp [typeWords, Separated.flatMap, ih]

/-! ### Members and definitions -/

def Member.Form.words : Member.Form → List Word
  | .attribute modifiers keyword type name semicolon =>
    plain (modifiers ++ [keyword]) ++ (type.words ++ plain [name, semicolon])
  | .operation modifiers type name arguments semicolon =>
    plain modifiers ++ type.words ++ plain name.toList ++ arguments.words ++ plain [semicolon]
  | .stringifier keyword semicolon => plain [keyword, semicolon]
  | .constructor keyword arguments semicolon =>
    ⟨keyword, false⟩ :: (arguments.words ++ plain [semicolon])
  | .constant keyword type name assign value semicolon =>
    ⟨keyword, false⟩ :: (type.words ++ plain (name :: assign :: (value.tokens ++ [semicolon])))
  | .field required type name default semicolon =>
    plain required.toList ++ type.words
      ++ plain (name :: (default.elim [] (·.tokens) ++ [semicolon]))
  | .enumValue value separator => plain (value :: separator.toList)
  | .declaration modifiers keyword opening types closing arguments semicolon =>
    plain (modifiers ++ [keyword, opening]) ++ (typeWords types ++ ⟨closing, false⟩ ::
      (arguments.elim [] (·.words) ++ plain [semicolon]))

@[simp] theorem Member.Form.map_token_words (form : Member.Form) :
    form.words.map Word.token = form.tokens := by
  cases form with
  | declaration modifiers keyword opening types closing arguments semicolon =>
    cases arguments <;> simp [words, tokens]
  | _ => simp [words, tokens]

def Member.words (member : Member) : List Word :=
  member.attrs.elim [] (·.words) ++ member.form.words

@[simp] theorem Member.map_token_words (member : Member) :
    member.words.map Word.token = member.tokens := by
  obtain ⟨_ | attrs, scope, form⟩ := member <;> simp [words, tokens]

def Definition.Form.words : Definition.Form → List Word
  | .container head name parent body =>
    plain (head.tokens ++ name :: parent.elim [] fun p => [p.colon, p.name])
      ++ ⟨body.opening, false⟩ :: (body.members.flatMap (·.words)
        ++ plain [body.closing, body.semicolon])
  | .typedef keyword type name semicolon =>
    ⟨keyword, false⟩ :: (type.words ++ plain [name, semicolon])
  | .callback keyword name assign result arguments semicolon =>
    plain [keyword, name, assign] ++ (result.words ++ arguments.words ++ plain [semicolon])
  | .includes name keyword mixin semicolon => plain [name, keyword, mixin, semicolon]

theorem map_token_flatMap {α : Type} {f : α → List Word} {ofItem : α → List Token}
    (h : ∀ a, (f a).map Word.token = ofItem a) (items : List α) :
    (items.flatMap f).map Word.token = items.flatMap ofItem := by
  simp [List.map_flatMap, h]

namespace Definition

theorem Form.map_token_words (form : Form) : form.words.map Word.token = form.tokens := by
  cases form with
  | container head name parent body =>
    simp [words, tokens, Body.tokens, map_token_flatMap Member.map_token_words]
  | _ => simp [words, tokens]

def words (d : Definition) : List Word := d.attrs.elim [] (·.words) ++ d.form.words

@[simp] theorem map_token_words (d : Definition) : d.words.map Word.token = d.tokens := by
  obtain ⟨_ | attrs, form⟩ := d <;> simp [words, tokens, form.map_token_words]

/-- The words of type names after the first. -/
def laterWords (d : Definition) : List Token := (d.words.filter (·.later)).map (·.token)

theorem Form.words_bare (form : Form) :
    ∃ rest, form.words = ⟨form.first, false⟩ :: rest ∧
      form.bare.words = ⟨form.first.bare, false⟩ :: rest := by
  cases form with
  | container head name parent body =>
    rw [words, head.tokens_eq_cons, bare, words, head.tokens_bare]
    exact ⟨_, rfl, rfl⟩
  | typedef | callback | includes => exact ⟨_, rfl, rfl⟩

/-- The first token is no later word, and stands before the others as it does without its trivia. -/
theorem words_bare (d : Definition) :
    ∃ rest, d.words = ⟨d.first, false⟩ :: rest ∧ d.bare.words = ⟨d.first.bare, false⟩ :: rest := by
  obtain ⟨_ | ⟨opening, items, closing⟩, form⟩ := d
  · exact form.words_bare
  · refine ⟨extAttrWords items ++ plain [closing] ++ form.words, ?_, ?_⟩
    · simp [words, first, ExtAttrList.words, ExtAttrList.opening]
    · simp [words, first, bare, ExtAttrList.words, ExtAttrList.bare, ExtAttrList.opening]

end Definition

end WebIdl
