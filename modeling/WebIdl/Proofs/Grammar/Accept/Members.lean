import WebIdl.Grammar.Definition
import WebIdl.Proofs.Grammar.Accept.Nested

/-!
# Members are read back

A well-formed member is read back from its tokens, whatever follows them.

* `inOrder_cons`, `modifiers_accepts` — the words before an attribute or an operation.
* `interfaceMemberForm_of_words` — after such words, no other member is looked for.
* `interfaceMember_accepts`, `field_accepts`, `enumValues_accepts` — the members of all definitions.
-/

namespace WebIdl

/-! ### Words in order -/

theorem inOrder_nil {tokens : List Token} (h : inOrder [] tokens) : tokens = [] := by
  cases tokens with
  | nil => rfl
  | cons => simp [inOrder] at h

/-- The first of the words is there or not, and then the others are in order. -/
theorem inOrder_cons {word : String} {words : List String} {tokens : List Token}
    (h : inOrder (word :: words) tokens) :
    ∃ (found : Option Token) (others : List Token), tokens = found.toList ++ others ∧
      (∀ token ∈ found, token.isWord word) ∧ inOrder words others := by
  cases tokens with
  | nil => exact ⟨none, [], rfl, nofun, by simp [inOrder]⟩
  | cons token tokens =>
    rw [inOrder] at h
    split at h
    · rename_i hword
      exact ⟨some token, tokens, rfl, by simpa using hword, h⟩
    · exact ⟨none, token :: tokens, rfl, nofun, h⟩

theorem exists_isWord_of_inOrder {words : List String} {tokens : List Token}
    (h : inOrder words tokens) : ∀ token ∈ tokens, ∃ word ∈ words, token.isWord word := by
  induction words generalizing tokens with
  | nil => simp [inOrder_nil h]
  | cons word words ih =>
    obtain ⟨found, others, rfl, hfound, hothers⟩ := inOrder_cons h
    intro token htoken
    rcases List.mem_append.mp htoken with htoken | htoken
    · exact ⟨word, List.mem_cons_self, hfound token (Option.mem_toList.mp htoken)⟩
    · obtain ⟨other, hmem, hother⟩ := ih hothers token htoken
      exact ⟨other, List.mem_cons_of_mem _ hmem, hother⟩

theorem inOrder_append {words more : List String} {tokens : List Token} (h : inOrder words tokens) :
    inOrder (words ++ more) tokens := by
  induction words generalizing tokens with
  | nil =>
    rw [inOrder_nil h]
    cases more <;> simp [inOrder]
  | cons word words ih =>
    cases tokens with
    | nil => simp [inOrder]
    | cons token tokens =>
      rw [inOrder] at h
      rw [List.cons_append, inOrder]
      split at h
      · rename_i hword
        rw [if_pos hword]
        exact ih h
      · rename_i hword
        rw [if_neg hword]
        exact ih h

namespace Grammar

open Rule

variable {rest : List Token} {container : Definition.Kind}

/-! ### Words before a member -/

theorem unseen_of_forall {word : String} {tokens : List Token}
    (h : ∀ token ∈ tokens, token.is word = false) (hrest : Unseen word rest) :
    Unseen word (tokens ++ rest) := by
  cases tokens with
  | nil => exact hrest
  | cons token tokens => exact unseen_cons.mpr (h token List.mem_cons_self)

theorem unseen_of_inOrder {words : List String} {tokens : List Token} {word : String}
    (h : inOrder words tokens) (hword : word ∉ words) (hrest : Unseen word rest) :
    Unseen word (tokens ++ rest) := by
  refine unseen_of_forall (fun token htoken => ?_) hrest
  obtain ⟨other, hmem, hother⟩ := exists_isWord_of_inOrder h token htoken
  exact Token.isWord_is hother fun heq => hword (heq ▸ hmem)

theorem eat_toList {found : Option Token} {word : String} (h : ∀ token ∈ found, token.isWord word)
    (hnone : Unseen word rest) : eat word (found.toList ++ rest) = .ok (found, rest) := by
  cases found with
  | none => exact eat_of_unseen hnone
  | some token => exact eat_of_is (Token.is_of_isWord (h token rfl))

/-- The words that may stand before an attribute. -/
def modifierWords : List String := ["static", "stringifier", "inherit", "readonly"]

/-- The words that may stand before an attribute or an operation. -/
def leadingWords : List String := modifierWords ++ ["getter", "setter", "deleter"]

theorem modifiers_accepts {words : List Token} (h : inOrder modifierWords words)
    (hrest : ∀ word ∈ modifierWords, Unseen word rest) :
    modifiers (words ++ rest) = .ok (words, rest) := by
  obtain ⟨a, as, rfl, ha, has⟩ := inOrder_cons h
  obtain ⟨b, bs, rfl, hb, hbs⟩ := inOrder_cons has
  obtain ⟨c, cs, rfl, hc, hcs⟩ := inOrder_cons hbs
  obtain ⟨d, ds, rfl, hd, hds⟩ := inOrder_cons hcs
  obtain rfl := inOrder_nil hds
  rw [List.append_assoc]
  refine (bind_of_ok (eat_toList ha (unseen_of_inOrder has (by decide) ?_))).trans ?_
  · exact hrest _ (by decide)
  rw [List.append_assoc]
  refine (bind_of_ok (eat_toList hb (unseen_of_inOrder hbs (by decide) ?_))).trans ?_
  · exact hrest _ (by decide)
  rw [List.append_assoc]
  refine (bind_of_ok (eat_toList hc (unseen_of_inOrder hcs (by decide) ?_))).trans ?_
  · exact hrest _ (by decide)
  rw [List.append_nil]
  refine (bind_of_ok (eat_toList hd (hrest _ (by decide)))).trans ?_
  simp only [List.append_assoc]
  rfl

theorem specialWord_accepts {word : Token}
    (h : word.isWord "getter" || word.isWord "setter" || word.isWord "deleter") :
    specialWord (word :: rest) = .ok ([word], rest) := by
  simp only [Bool.or_eq_true] at h
  have his : word.is "getter" || word.is "setter" || word.is "deleter" := by
    rcases h with (h | h) | h <;> simp [Token.is_of_isWord h]
  exact (bind_of_ok (eatIf_of_true his)).trans rfl

theorem specialWord_of_unseen
    (h : Unseen "getter" rest ∧ Unseen "setter" rest ∧ Unseen "deleter" rest) :
    specialWord rest = .ok ([], rest) := by
  refine (bind_of_ok (eatIf_of_false fun token htoken => ?_)).trans rfl
  simp [h.1 token htoken, h.2.1 token htoken, h.2.2 token htoken]

/-! ### The forms -/

theorem constructorForm_accepts {arguments : ArgumentList} {semicolon : Token}
    (harguments : arguments.wellFormed) (hsemicolon : semicolon.isMark ";") (keyword : Token) :
    constructorForm keyword (arguments.tokens ++ semicolon :: rest) =
      .ok (.constructor keyword arguments semicolon, rest) := by
  refine (bind_of_ok (argumentList_accepts harguments _)).trans ?_
  exact (bind_of_ok (expect_of_is (Token.is_of_isMark hsemicolon))).trans rfl

theorem attributeForm_accepts {type : IdlType} {name semicolon : Token} (htype : type.wellFormed)
    (hname : name.isName) (hsemicolon : semicolon.isMark ";") (words : List Token)
    (keyword : Token) :
    attributeForm words keyword (type.tokens ++ name :: semicolon :: rest) =
      .ok (.attribute words keyword type name semicolon, rest) := by
  refine (bind_of_ok (idlType_accepts htype (.of_isName hname) _)).trans ?_
  refine (bind_of_ok (identifier_of_kind (Token.kind_of_isName hname))).trans ?_
  exact (bind_of_ok (expect_of_is (Token.is_of_isMark hsemicolon))).trans rfl

theorem operationForm_accepts {type : IdlType} {name : Option Token} {arguments : ArgumentList}
    {semicolon : Token} (htype : type.wellFormed) (hname : ∀ token ∈ name, token.isName)
    (harguments : arguments.wellFormed) (hsemicolon : semicolon.isMark ";") (words : List Token) :
    operationForm words
        (type.tokens ++ (name.toList ++ (arguments.tokens ++ semicolon :: rest))) =
      .ok (.operation words type name arguments semicolon, rest) := by
  have hends : TypeEnds (name.toList ++ (arguments.tokens ++ semicolon :: rest)) := by
    cases name with
    | none => exact typeEnds_arguments harguments
    | some name => exact .of_isName (hname name rfl)
  have hread : eatIf (·.kind == .identifier)
      (name.toList ++ (arguments.tokens ++ semicolon :: rest)) =
        .ok (name, arguments.tokens ++ semicolon :: rest) := by
    cases name with
    | none =>
      obtain ⟨opening, more, hmore, hopening⟩ := ArgumentList.exists_opening harguments
      refine eatIf_of_false ?_
      simp [hmore, Token.kind_of_isMark hopening]
    | some name => exact eatIf_of_true (by simp [Token.kind_of_isName (hname name rfl)])
  refine (bind_of_ok (idlType_accepts htype hends _)).trans ?_
  refine (bind_of_ok hread).trans ?_
  refine (bind_of_ok (argumentList_accepts harguments _)).trans ?_
  exact (bind_of_ok (expect_of_is (Token.is_of_isMark hsemicolon))).trans rfl

theorem constantForm_accepts {type : IdlType} {name assign semicolon : Token} {value : Literal}
    (htype : type.wellFormed) (hname : name.isName) (hassign : assign.isMark "=")
    (hvalue : value.wellFormed) (hsemicolon : semicolon.isMark ";") (keyword : Token) :
    constantForm keyword (type.tokens ++ name :: assign :: (value.tokens ++ semicolon :: rest)) =
      .ok (.constant keyword type name assign value semicolon, rest) := by
  refine (bind_of_ok (idlType_accepts htype (.of_isName hname) _)).trans ?_
  refine (bind_of_ok (identifier_of_kind (Token.kind_of_isName hname))).trans ?_
  refine (bind_of_ok (expect_of_is (Token.is_of_isMark hassign))).trans ?_
  refine (bind_of_ok (literal_accepts hvalue _)).trans ?_
  exact (bind_of_ok (expect_of_is (Token.is_of_isMark hsemicolon))).trans rfl

/-- The types of a declaration, up to the bracket that closes them. -/
theorem declarationTypes_accepts {types : Separated IdlType} {closing : Token}
    (htypes : typesWellFormed (·.isMark ",") types) (hclosing : closing.isMark ">")
    (missing : Cause) :
    separated (idlType missing) "," (types.tokens IdlType.tokens ++ closing :: rest) =
      .ok (types, closing :: rest) := by
  rw [typesWellFormed_eq] at htypes
  exact separated_accepts TypeEnds (fun a _ ha rest hends => idlType_accepts ha hends missing)
    (fun _ => Token.is_of_isMark) (fun _ _ hsep => .of_isMark hsep (by decide)) htypes
    (.of_isMark hclosing (by decide)) (unseen_of_isMark hclosing (by decide))

theorem declarationForm_accepts {words : List Token} {keyword opening closing semicolon : Token}
    {types : Separated IdlType} {arguments : Option ArgumentList} {hasAttrs : Bool}
    (h : (Member.Form.declaration words keyword opening types closing arguments
      semicolon).wellFormed container hasAttrs) :
    declarationForm words keyword (opening :: (types.tokens IdlType.tokens ++ closing ::
        (arguments.elim [] (·.tokens) ++ semicolon :: rest))) =
      .ok (.declaration words keyword opening types closing arguments semicolon, rest) := by
  simp only [Member.Form.wellFormed, Bool.and_eq_true, Bool.or_eq_true, decide_eq_true_eq,
    beq_iff_eq] at h
  obtain ⟨⟨⟨⟨⟨⟨⟨⟨-, hopening⟩, htypes⟩, hleast⟩, hmost⟩, hclosing⟩, harguments⟩, hkind⟩,
    hsemicolon⟩ := h
  refine (bind_of_ok (expect_of_is (Token.is_of_isMark hopening))).trans ?_
  refine (bind_of_ok (declarationTypes_accepts htypes hclosing _)).trans ?_
  have harity : ¬(types.items.length < (declarationArity (.ofDeclaration words keyword)).1 ∨
      (declarationArity (.ofDeclaration words keyword)).2 < types.items.length) := by
    omega
  rw [if_neg (by rw [Bool.or_eq_true, decide_eq_true_eq, decide_eq_true_eq]; exact harity)]
  refine (bind_of_ok (expect_of_is (Token.is_of_isMark hclosing))).trans ?_
  cases arguments with
  | none =>
    refine (bind_of_ok (sees_of_unseen (unseen_of_isMark hsemicolon (by decide)))).trans ?_
    rw [if_neg (by simp)]
    refine (bind_of_ok rfl).trans ?_
    exact (bind_of_ok (expect_of_is (Token.is_of_isMark hsemicolon))).trans rfl
  | some list =>
    refine (bind_of_ok (sees_arguments harguments)).trans ?_
    rw [if_pos (by simpa using hkind)]
    refine (bind_of_ok (map_of_ok (argumentList_accepts harguments _))).trans ?_
    exact (bind_of_ok (expect_of_is (Token.is_of_isMark hsemicolon))).trans rfl

/-! ### Members of interfaces, mixins and namespaces -/

/-- The words that are looked for where the type or the keyword of a member can stand. -/
def memberWords : List String :=
  ["const", "constructor", "stringifier", ";", "iterable", "maplike", "setlike", "async",
    "static", "inherit", "readonly", "getter", "setter", "deleter"]

theorem unseen_of_type {type : IdlType} (h : type.wellFormed) {word : String}
    (hword : word ∈ "attribute" :: memberWords) : Unseen word (type.tokens ++ rest) := by
  have hmem : ∀ word ∈ "attribute" :: memberWords, word ∈ Token.marks ++ Token.keywords ∧
      word ∉ TypeForm.openings ∧ word ≠ "(" ∧ word ≠ "[" := by decide
  obtain ⟨hmarks, hopening, hunion, hattrs⟩ := hmem word hword
  exact unseen_type h hmarks hopening hunion fun heq => absurd heq hattrs

/-- The words before an attribute or an operation start no other member. -/
theorem interfaceMemberForm_of_words {words : List Token}
    (hwords : ∀ token ∈ words, ∃ word ∈ leadingWords, token.isWord word)
    (hrest : ∀ word ∈ memberWords, Unseen word rest) :
    interfaceMemberForm container (words ++ rest) = modifiedMember container (words ++ rest) := by
  have hnot {word : String} (hword : word ∉ leadingWords) :
      ∀ token ∈ words, token.is word = false := by
    intro token htoken
    obtain ⟨other, hmem, hother⟩ := hwords token htoken
    exact Token.isWord_is hother fun heq => hword (heq ▸ hmem)
  have hunseen {word : String} (hword : word ∉ leadingWords)
      (hmem : word ∈ memberWords) : Unseen word (words ++ rest) :=
    unseen_of_forall (hnot hword) (hrest word hmem)
  -- a word that another member may start with as well is told by the token after it
  have hpair {word : String} {q : Token → Bool} (hmem : word ∈ memberWords)
      (hq : ∀ token ∈ words, q token = false) (hrestq : ∀ token ∈ rest.head?, q token = false) :
      eatPair (·.is word) q (words ++ rest) = .ok (none, words ++ rest) := by
    cases words with
    | nil => exact eatPair_of_false (hrest word hmem)
    | cons token words =>
      refine eatPair_of_second ?_
      cases words with
      | nil => exact hrestq
      | cons second words => simpa using hq second (by simp)
  refine (bind_of_ok (eat_of_unseen (hunseen (by decide) (by decide)))).trans ?_
  refine (bind_of_ok (eatBefore_of_false (hunseen (by decide) (by decide)))).trans ?_
  refine (bind_of_ok (hpair (by decide) (hnot (by decide)) (hrest _ (by decide)))).trans ?_
  refine (bind_of_ok (eatIf_of_false fun token htoken => ?_)).trans ?_
  · rw [hunseen (by decide) (by decide) token htoken, hunseen (by decide) (by decide) token htoken,
      hunseen (by decide) (by decide) token htoken]
    rfl
  refine (bind_of_ok (eatPair_of_false (hunseen (by decide) (by decide)))).trans ?_
  refine (bind_of_ok (hpair (by decide) (fun token htoken => ?_) fun token htoken => ?_)).trans rfl
  · rw [hnot (by decide) token htoken, hnot (by decide) token htoken]
    rfl
  · rw [hrest _ (by decide) token htoken, hrest _ (by decide) token htoken]
    rfl

theorem modifiedMember_attribute {words : List Token} {keyword name semicolon : Token}
    {type : IdlType} (hwords : inOrder modifierWords words) (hkeyword : keyword.isWord "attribute")
    (htype : type.wellFormed) (hname : name.isName) (hsemicolon : semicolon.isMark ";") :
    modifiedMember container (words ++ keyword :: (type.tokens ++ name :: semicolon :: rest)) =
      .ok (.attribute words keyword type name semicolon, rest) := by
  refine (bind_of_ok (modifiers_accepts hwords fun word hmem => ?_)).trans ?_
  · have hne : ∀ word ∈ modifierWords, "attribute" ≠ word := by decide
    exact unseen_of_isWord hkeyword (hne word hmem)
  refine (bind_of_ok (eat_of_is (Token.is_of_isWord hkeyword))).trans ?_
  exact attributeForm_accepts htype hname hsemicolon words keyword

/-- The words before the type of an operation are its modifiers, or else the one word that makes it
special. -/
theorem modifiedMember_operation {words : List Token} {form : Member.Form}
    (hwords : Member.Form.operationWords container words)
    (hrest : ∀ word ∈ "attribute" :: memberWords, Unseen word rest) {after : List Token}
    (hform : operationForm words rest = .ok (form, after)) :
    modifiedMember container (words ++ rest) = .ok (form, after) := by
  have hmem : ∀ word ∈ modifierWords, word ∈ "attribute" :: memberWords := by decide
  have hattribute : Unseen "attribute" rest := hrest _ (by decide)
  simp only [Member.Form.operationWords, Bool.or_eq_true, Bool.and_eq_true, bne_iff_ne] at hwords
  rcases hwords with hwords | ⟨hcontainer, hwords⟩
  · have hany : ¬(words.any fun t => t.text == "readonly" || t.text == "inherit") := by
      simp only [List.any_eq_true, Bool.or_eq_true, beq_iff_eq, not_exists, not_and]
      intro token htoken htext
      obtain ⟨word, hword, htoken⟩ := exists_isWord_of_inOrder hwords token htoken
      rw [Token.text_of_is (Token.is_of_isWord htoken)] at htext
      rcases htext with rfl | rfl
      all_goals simp at hword
    refine (bind_of_ok (modifiers_accepts (inOrder_append hwords) fun word hword =>
      hrest word (hmem word hword))).trans ?_
    refine (bind_of_ok (eat_of_unseen hattribute)).trans ?_
    dsimp only
    rw [if_neg hany]
    split
    · rename_i hempty
      simp only [Bool.and_eq_true, List.isEmpty_iff] at hempty
      obtain ⟨rfl, -⟩ := hempty
      refine (bind_of_ok (specialWord_of_unseen ⟨hrest _ (by decide), hrest _ (by decide),
        hrest _ (by decide)⟩)).trans hform
    · exact hform
  · split at hwords
    · rename_i word
      have hne (other : String) (hother : other ∈ "attribute" :: modifierWords) :
          Unseen other (word :: rest) := by
        have hspecial : ∀ other ∈ "attribute" :: modifierWords,
            "getter" ≠ other ∧ "setter" ≠ other ∧ "deleter" ≠ other := by decide
        obtain ⟨hgetter, hsetter, hdeleter⟩ := hspecial other hother
        simp only [Bool.or_eq_true] at hwords
        rcases hwords with (h | h) | h
        · exact unseen_of_isWord h hgetter
        · exact unseen_of_isWord h hsetter
        · exact unseen_of_isWord h hdeleter
      have hnil : inOrder modifierWords [] := by simp [inOrder]
      refine (bind_of_ok (modifiers_accepts hnil fun other hother =>
        hne other (List.mem_cons_of_mem _ hother))).trans ?_
      refine (bind_of_ok (eat_of_unseen (hne _ List.mem_cons_self))).trans ?_
      dsimp only
      rw [if_neg (by simp), if_pos (by simpa using hcontainer)]
      exact (bind_of_ok (specialWord_accepts hwords)).trans hform
    · cases hwords

/-- The words of a declaration are looked for before those of any member with modifiers. -/
theorem interfaceMemberForm_declaration {words : List Token} {keyword : Token}
    (hwords : Member.Form.declarationWords keyword words) :
    interfaceMemberForm container (words ++ keyword :: rest) =
      declarationForm words keyword rest := by
  have hne {token : Token} {word : String} (hword : token.isWord word)
      (hmem : word ∈ ["iterable", "maplike", "setlike", "async", "readonly"])
      (more : List Token) :
      ∀ other ∈ ["const", "constructor", "stringifier"], Unseen other (token :: more) := by
    have hall : ∀ word ∈ ["iterable", "maplike", "setlike", "async", "readonly"],
        ∀ other ∈ ["const", "constructor", "stringifier"], word ≠ other := by decide
    exact fun other hother => unseen_of_isWord hword (hall word hmem other hother)
  unfold Member.Form.declarationWords at hwords
  split at hwords
  · obtain ⟨word, hmem, hword⟩ : ∃ word ∈ ["iterable", "maplike", "setlike"],
        keyword.isWord word := by simpa [or_assoc] using hwords
    have hkeyword : keyword.is "iterable" || keyword.is "maplike" || keyword.is "setlike" := by
      have his := Token.is_of_isWord hword
      simp only [List.mem_cons, List.not_mem_nil, or_false] at hmem
      rcases hmem with rfl | rfl | rfl <;> simp [his]
    have hunseen := hne hword (List.mem_append_left ["async", "readonly"] hmem) rest
    refine (bind_of_ok (eat_of_unseen (hunseen _ (by decide)))).trans ?_
    refine (bind_of_ok (eatBefore_of_false (hunseen _ (by decide)))).trans ?_
    refine (bind_of_ok (eatPair_of_false (hunseen _ (by decide)))).trans ?_
    exact bind_of_ok (eatIf_of_true hkeyword)
  · rename_i word
    simp only [Bool.or_eq_true, Bool.and_eq_true] at hwords
    obtain ⟨other, hmem, hother⟩ : ∃ other ∈ ["async", "readonly"], word.isWord other := by
      rcases hwords with ⟨h, -⟩ | ⟨h, -⟩ <;> simp [h]
    have hunseen := hne hother (List.mem_append_right ["iterable", "maplike", "setlike"] hmem)
      (keyword :: rest)
    have hdeclaration : ∀ keyword ∈ ["iterable", "maplike", "setlike"],
        word.is keyword = false := by
      have hall : ∀ other ∈ ["async", "readonly"], ∀ keyword ∈ ["iterable", "maplike", "setlike"],
          other ≠ keyword := by decide
      exact fun keyword hkeyword => Token.isWord_is hother (hall other hmem keyword hkeyword)
    refine (bind_of_ok (eat_of_unseen (hunseen _ (by decide)))).trans ?_
    refine (bind_of_ok (eatBefore_of_false (hunseen _ (by decide)))).trans ?_
    refine (bind_of_ok (eatPair_of_false (hunseen _ (by decide)))).trans ?_
    refine (bind_of_ok (eatIf_of_false fun token htoken => ?_)).trans ?_
    · obtain rfl : word = token := by simpa using htoken
      simp [hdeclaration]
    rcases hwords with ⟨hword, hkeyword⟩ | ⟨hword, hkeyword⟩
    · exact bind_of_ok (eatPair_of_true (Token.is_of_isWord hword) (Token.is_of_isWord hkeyword))
    · refine (bind_of_ok (eatPair_of_false (unseen_of_isWord hword (by decide)))).trans ?_
      refine bind_of_ok (eatPair_of_true (Token.is_of_isWord hword) ?_)
      rcases hkeyword with h | h <;> simp [Token.is_of_isWord h]
  · cases hwords

theorem exists_isWord_of_operationWords {words : List Token}
    (h : Member.Form.operationWords container words) :
    ∀ token ∈ words, ∃ word ∈ leadingWords, token.isWord word := by
  intro token htoken
  simp only [Member.Form.operationWords, Bool.or_eq_true, Bool.and_eq_true] at h
  rcases h with h | ⟨-, h⟩
  · obtain ⟨word, hmem, hword⟩ := exists_isWord_of_inOrder h token htoken
    have hsub : ∀ word ∈ ["static", "stringifier"], word ∈ leadingWords := by decide
    exact ⟨word, hsub word hmem, hword⟩
  · split at h
    · obtain rfl := List.mem_singleton.mp htoken
      simp only [Bool.or_eq_true] at h
      rcases h with (h | h) | h
      · exact ⟨_, by decide, h⟩
      · exact ⟨_, by decide, h⟩
      · exact ⟨_, by decide, h⟩
    · cases h

theorem interfaceMemberForm_accepts {form : Member.Form} {hasAttrs : Bool}
    (h : form.wellFormed container hasAttrs) (hbelongs : form.belongs container)
    (hcontainer : container ≠ .dictionary ∧ container ≠ .enum) :
    interfaceMemberForm container (form.tokens ++ rest) = .ok (form, rest) := by
  cases form with
  | «attribute» words keyword type name semicolon =>
    simp only [Member.Form.wellFormed, Bool.and_eq_true] at h
    obtain ⟨⟨⟨⟨hwords, hkeyword⟩, htype⟩, hname⟩, hsemicolon⟩ := h
    have hne : ∀ word ∈ memberWords, "attribute" ≠ word := by decide
    simp only [Member.Form.tokens, List.append_assoc, List.cons_append, List.nil_append]
    rw [interfaceMemberForm_of_words
      (fun token htoken => by
        obtain ⟨word, hmem, hword⟩ := exists_isWord_of_inOrder hwords token htoken
        exact ⟨word, List.mem_append_left _ hmem, hword⟩)
      fun word hmem => unseen_of_isWord hkeyword (hne word hmem)]
    exact modifiedMember_attribute hwords hkeyword htype hname hsemicolon
  | operation words type name arguments semicolon =>
    simp only [Member.Form.wellFormed, Bool.and_eq_true, Option.all_eq_true] at h
    obtain ⟨⟨⟨⟨⟨hwords, -⟩, htype⟩, hname⟩, harguments⟩, hsemicolon⟩ := h
    simp only [Member.Form.tokens, List.append_assoc, List.cons_append, List.nil_append]
    have hunseen (word : String) (hmem : word ∈ "attribute" :: memberWords) :
        Unseen word (type.tokens ++ (name.toList ++ (arguments.tokens ++ semicolon :: rest))) :=
      unseen_of_type htype hmem
    rw [interfaceMemberForm_of_words (exists_isWord_of_operationWords hwords)
      fun word hmem => hunseen word (List.mem_cons_of_mem _ hmem)]
    exact modifiedMember_operation hwords hunseen
      (operationForm_accepts htype hname harguments hsemicolon words)
  | stringifier keyword semicolon =>
    simp only [Member.Form.wellFormed, Bool.and_eq_true] at h
    refine (bind_of_ok (eat_of_unseen (unseen_of_isWord h.1 (by decide)))).trans ?_
    refine (bind_of_ok (eatBefore_of_false (unseen_of_isWord h.1 (by decide)))).trans ?_
    exact (bind_of_ok (eatPair_of_true (Token.is_of_isWord h.1) (Token.is_of_isMark h.2))).trans rfl
  | constructor keyword arguments semicolon =>
    simp only [Member.Form.wellFormed, Bool.and_eq_true] at h
    obtain ⟨⟨hkeyword, harguments⟩, hsemicolon⟩ := h
    simp only [Member.Form.tokens, List.append_assoc, List.cons_append, List.nil_append]
    obtain ⟨opening, more, hmore, hopening⟩ := ArgumentList.exists_opening harguments
    have hbefore : eatBefore (·.is "constructor") (·.is "(")
        (keyword :: (arguments.tokens ++ semicolon :: rest)) =
          .ok (some keyword, arguments.tokens ++ semicolon :: rest) := by
      rw [hmore]
      exact eatBefore_of_true (Token.is_of_isWord hkeyword) (Token.is_of_isMark hopening)
    refine (bind_of_ok (eat_of_unseen (unseen_of_isWord hkeyword (by decide)))).trans ?_
    refine (bind_of_ok hbefore).trans ?_
    exact constructorForm_accepts harguments hsemicolon keyword
  | constant keyword type name assign value semicolon =>
    simp only [Member.Form.wellFormed, Bool.and_eq_true] at h
    obtain ⟨⟨⟨⟨⟨hkeyword, htype⟩, hname⟩, hassign⟩, hvalue⟩, hsemicolon⟩ := h
    simp only [Member.Form.tokens, List.append_assoc, List.cons_append, List.nil_append]
    refine (bind_of_ok (eat_of_is (Token.is_of_isWord hkeyword))).trans ?_
    exact constantForm_accepts htype hname hassign hvalue hsemicolon keyword
  | declaration words keyword opening types closing arguments semicolon =>
    have hwords : Member.Form.declarationWords keyword words := by
      simp only [Member.Form.wellFormed, Bool.and_eq_true] at h
      exact h.1.1.1.1.1.1.1.1
    simp only [Member.Form.tokens, typeTokens_eq, List.append_assoc, List.cons_append,
      List.nil_append]
    exact (interfaceMemberForm_declaration hwords).trans (declarationForm_accepts h)
  | field | enumValue =>
    simp only [Member.Form.belongs, beq_iff_eq] at hbelongs
    simp [hbelongs] at hcontainer

end Grammar

/-! ### First tokens of members -/

theorem Member.Form.tokens_eq_cons (form : Member.Form) :
    ∃ more, form.tokens = form.first :: more := by
  cases form with
  | «attribute» words | declaration words => cases words <;> simp [tokens, first]
  | operation words type name arguments semicolon =>
    obtain ⟨more, hmore⟩ := type.tokens_eq_cons
    cases words <;> simp [tokens, first, hmore]
  | field required type name default semicolon =>
    obtain ⟨more, hmore⟩ := type.tokens_eq_cons
    cases required <;> simp [tokens, first, hmore]
  | stringifier | constructor | constant | enumValue => simp [tokens, first]

/-- A member ends neither the braces nor, unless it may, extends the attributes before it. -/
theorem Member.Form.first_is {form : Member.Form} {container : Definition.Kind} {hasAttrs : Bool}
    (h : form.wellFormed container hasAttrs) {word : String} (hword : word ∈ ["\x7d", "["])
    (hattrs : word = "[" → hasAttrs = false) : form.first.is word = false := by
  have hisWord {token : Token} {other : String} (hother : token.isWord other)
      (hmem : other ∈ Token.keywords) : token.is word = false := by
    have hne : ∀ other ∈ Token.keywords, ∀ word ∈ ["\x7d", "["], other ≠ word := by decide
    exact Token.isWord_is hother (hne other hmem word hword)
  have htype {type : IdlType} (htype : type.wellFormed)
      (hnone : word = "[" → type.attrs = none) : type.first.is word = false := by
    have hmem : ∀ word ∈ ["\x7d", "["], word ∈ Token.marks ++ Token.keywords ∧
        word ∉ TypeForm.openings ∧ word ≠ "(" := by decide
    obtain ⟨hmarks, hopening, hunion⟩ := hmem word hword
    exact type.first_is htype hmarks hopening hunion hnone
  cases form with
  | «attribute» words keyword type name semicolon =>
    simp only [wellFormed, Bool.and_eq_true] at h
    cases words with
    | nil => exact hisWord h.1.1.1.2 (by decide)
    | cons token words =>
      obtain ⟨other, hmem, hother⟩ := exists_isWord_of_inOrder h.1.1.1.1 token List.mem_cons_self
      have hsub : ∀ other ∈ ["static", "stringifier", "inherit", "readonly"],
          other ∈ Token.keywords := by decide
      exact hisWord hother (hsub other hmem)
  | operation words type name arguments semicolon =>
    simp only [wellFormed, Bool.and_eq_true] at h
    cases words with
    | nil => exact htype h.1.1.1.2 fun heq => by simpa [hattrs heq] using h.1.1.1.1.2
    | cons token words =>
      obtain ⟨other, hmem, hother⟩ :=
        Grammar.exists_isWord_of_operationWords h.1.1.1.1.1 token List.mem_cons_self
      have hsub : ∀ other ∈ Grammar.leadingWords, other ∈ Token.keywords := by decide
      exact hisWord hother (hsub other hmem)
  | stringifier keyword semicolon =>
    simp only [wellFormed, Bool.and_eq_true] at h
    exact hisWord h.1 (by decide)
  | constructor keyword arguments semicolon =>
    simp only [wellFormed, Bool.and_eq_true] at h
    exact hisWord h.1.1 (by decide)
  | constant keyword type name assign value semicolon =>
    simp only [wellFormed, Bool.and_eq_true] at h
    exact hisWord h.1.1.1.1.1 (by decide)
  | field required type name default semicolon =>
    simp only [wellFormed, Bool.and_eq_true] at h
    cases required with
    | none => exact htype h.1.1.1.1.2 fun heq => by simpa [hattrs heq] using h.1.1.1.1.1.2
    | some keyword => exact hisWord h.1.1.1.1.1.1 (by decide)
  | enumValue value separator =>
    simp only [wellFormed, Bool.and_eq_true, beq_iff_eq] at h
    simp [first, Token.is, h.1]
  | declaration words keyword opening types closing arguments semicolon =>
    simp only [wellFormed, Bool.and_eq_true] at h
    have hwords := h.1.1.1.1.1.1.1.1
    unfold declarationWords at hwords
    split at hwords
    · simp only [Bool.or_eq_true] at hwords
      rcases hwords with (h | h) | h
      · exact hisWord h (by decide)
      · exact hisWord h (by decide)
      · exact hisWord h (by decide)
    · simp only [Bool.or_eq_true, Bool.and_eq_true] at hwords
      rcases hwords with ⟨h, -⟩ | ⟨h, -⟩
      · exact hisWord h (by decide)
      · exact hisWord h (by decide)
    · cases hwords

namespace Member

variable {container : Definition.Kind} {scope : String} {member : Member}

theorem attrs_of_wellFormed (h : member.wellFormed container scope) :
    ∀ list ∈ member.attrs, list.wellFormed := by
  simp only [wellFormed, Bool.and_eq_true] at h
  exact Option.all_eq_true _ _ |>.mp h.1.1.2

/-- No member starts with the brace that closes the members. -/
theorem exists_first (h : member.wellFormed container scope) :
    ∃ token more, member.tokens = token :: more ∧ token.is "\x7d" = false := by
  obtain ⟨_ | attrs, scope', form⟩ := member
  · simp only [wellFormed, Bool.and_eq_true] at h
    obtain ⟨more, hmore⟩ := form.tokens_eq_cons
    exact ⟨_, more, hmore, form.first_is h.2 (by decide) (by decide)⟩
  · obtain ⟨more, hmore⟩ := attrs.tokens_eq_cons
    have hopening := ExtAttrList.isMark_opening (attrs_of_wellFormed h attrs rfl)
    exact ⟨_, more ++ form.tokens, by simp [tokens, hmore],
      Token.isMark_is hopening (by decide)⟩

end Member

namespace Grammar

open Rule

variable {rest : List Token} {container : Definition.Kind} {scope : String} {member : Member}

/-! ### Members with their extended attributes -/

theorem memberAttrs_accepts (h : member.wellFormed container scope) :
    extAttrs (member.tokens ++ rest) = .ok (member.attrs, member.form.tokens ++ rest) := by
  have hattrs := Member.attrs_of_wellFormed h
  simp only [Member.wellFormed, Bool.and_eq_true] at h
  rw [Member.tokens, List.append_assoc]
  refine extAttrs_accepts hattrs fun hnone => ?_
  obtain ⟨more, hmore⟩ := member.form.tokens_eq_cons
  rw [hmore]
  exact unseen_cons.mpr (member.form.first_is h.2 (by decide) fun _ => by simp [hnone])

theorem interfaceMember_accepts (h : member.wellFormed container scope)
    (hcontainer : container ≠ .dictionary ∧ container ≠ .enum) :
    interfaceMember container scope (member.tokens ++ rest) = .ok (member, rest) := by
  refine (bind_of_ok (memberAttrs_accepts h)).trans ?_
  simp only [Member.wellFormed, Bool.and_eq_true, beq_iff_eq] at h
  obtain ⟨⟨⟨⟨rfl, hbelongs⟩, -⟩, -⟩, hform⟩ := h
  exact (bind_of_ok (interfaceMemberForm_accepts hform hbelongs hcontainer)).trans rfl

theorem field_accepts (h : member.wellFormed .dictionary scope) :
    field scope (member.tokens ++ rest) = .ok (member, rest) := by
  refine (bind_of_ok (memberAttrs_accepts h)).trans ?_
  simp only [Member.wellFormed, Bool.and_eq_true, beq_iff_eq] at h
  obtain ⟨attrs, scope', form⟩ := member
  obtain ⟨⟨⟨⟨rfl, hbelongs⟩, -⟩, -⟩, hform⟩ := h
  cases form with
  | field required type name default semicolon =>
    simp only [Member.Form.wellFormed, Bool.and_eq_true, Option.all_eq_true] at hform
    obtain ⟨⟨⟨⟨⟨⟨hrequired, -⟩, htype⟩, hname⟩, hdefault⟩, hboth⟩, hsemicolon⟩ := hform
    simp only [Member.Form.tokens, List.append_assoc, List.cons_append, List.nil_append]
    refine (bind_of_ok (eat_toList hrequired ?_)).trans ?_
    · exact unseen_type htype (by decide) (by decide) (by decide) fun heq => absurd heq (by decide)
    refine (bind_of_ok (idlType_accepts htype (.of_isName hname) _)).trans ?_
    refine (bind_of_ok (identifier_of_kind (Token.kind_of_isName hname))).trans ?_
    refine (bind_of_ok (default?_accepts (Option.all_eq_true _ _ |>.mpr hdefault)
      (unseen_of_isMark hsemicolon (by decide)))).trans ?_
    rw [if_neg (by cases required <;> cases default <;> simp_all)]
    exact (bind_of_ok (expect_of_is (Token.is_of_isMark hsemicolon))).trans rfl
  | «attribute» | operation | stringifier | constructor | constant | enumValue | declaration =>
    simp [Member.Form.belongs] at hbelongs

/-! ### Enumeration values -/

theorem eq_enumValue (h : member.wellFormed .enum scope) :
    ∃ (value : Token) (separator : Option Token),
      member = ⟨none, scope, .enumValue value separator⟩ ∧
      value.kind = .string ∧ ∀ token ∈ separator, token.isMark "," := by
  obtain ⟨attrs, scope', form⟩ := member
  simp only [Member.wellFormed, Bool.and_eq_true, beq_iff_eq] at h
  obtain ⟨⟨⟨⟨rfl, hbelongs⟩, -⟩, hattrs⟩, hform⟩ := h
  obtain rfl : attrs = none := by simpa using hattrs
  cases form with
  | enumValue value separator =>
    simp only [Member.Form.wellFormed, Bool.and_eq_true, beq_iff_eq, Option.all_eq_true] at hform
    exact ⟨value, separator, rfl, hform⟩
  | «attribute» | operation | stringifier | constructor | constant | field | declaration =>
    simp [Member.Form.belongs] at hbelongs

theorem enumValuesUpTo_accepts {values : List Member} {bound : Nat} {closing : Token}
    (hbound : values.length ≤ bound) (hwf : ∀ member ∈ values, member.wellFormed .enum scope)
    (hseparators : values.dropLast.all (·.form.hasSeparator)) (hclosing : closing.isMark "\x7d") :
    enumValuesUpTo scope bound (values.flatMap (·.tokens) ++ closing :: rest) =
      .ok (values, closing :: rest) := by
  induction values generalizing bound with
  | nil =>
    cases bound with
    | zero => rfl
    | succ bound =>
      refine (bind_of_ok (eatIf_of_false fun token htoken => ?_)).trans rfl
      obtain rfl : closing = token := by simpa using htoken
      simp [Token.kind_of_isMark hclosing]
  | cons member values ih =>
    cases bound with
    | zero => simp at hbound
    | succ bound =>
      obtain ⟨value, separator, rfl, hvalue, hseparator⟩ :=
        eq_enumValue (hwf member List.mem_cons_self)
      have htokens : (⟨none, scope, .enumValue value separator⟩ : Member).tokens =
          value :: separator.toList := rfl
      rw [List.flatMap_cons, htokens, List.append_assoc, List.cons_append]
      refine (bind_of_ok (eatIf_of_true (by simp [hvalue]))).trans ?_
      cases separator with
      | none =>
        -- without a comma it is the last
        obtain rfl : values = [] := by
          cases values with
          | nil => rfl
          | cons => simp [Member.Form.hasSeparator] at hseparators
        exact (bind_of_ok (eat_of_unseen (unseen_of_isMark hclosing (by decide)))).trans rfl
      | some comma =>
        refine (bind_of_ok (eat_of_is (Token.is_of_isMark (hseparator comma rfl)))).trans ?_
        refine (bind_of_ok (ih (by simpa using hbound) ?_ ?_)).trans rfl
        · exact fun member hmember => hwf member (List.mem_cons_of_mem _ hmember)
        · cases values with
          | nil => rfl
          | cons => simpa [Member.Form.hasSeparator] using hseparators

theorem enumValues_accepts {values : List Member} {closing : Token}
    (hwf : ∀ member ∈ values, member.wellFormed .enum scope) (hne : values ≠ [])
    (hseparators : values.dropLast.all (·.form.hasSeparator)) (hclosing : closing.isMark "\x7d") :
    enumValues scope (values.flatMap (·.tokens) ++ closing :: rest) =
      .ok (values, closing :: rest) := by
  have hlength : values.length ≤ (values.flatMap (·.tokens)).length := by
    refine length_le_length_flatMap fun member hmember => ?_
    obtain ⟨token, more, hmore, -⟩ := Member.exists_first (hwf member hmember)
    simp [hmore]
  have hbound : values.length ≤ (values.flatMap (·.tokens) ++ closing :: rest).length := by
    rw [List.length_append]
    omega
  refine (bind_of_ok (x := fun rest => enumValuesUpTo scope rest.length rest)
    (enumValuesUpTo_accepts hbound hwf hseparators hclosing)).trans ?_
  simp [hne]
  rfl

/-- The members in braces, up to the brace that closes them. -/
theorem members_accepts {members : List Member} {closing : Token}
    (hwf : ∀ member ∈ members, member.wellFormed container scope)
    (henum : container = .enum → members ≠ [] ∧ members.dropLast.all (·.form.hasSeparator))
    (hclosing : closing.isMark "\x7d") :
    Grammar.members container scope (members.flatMap (·.tokens) ++ closing :: rest) =
      .ok (members, closing :: rest) := by
  have hstop : closing.is "\x7d" := Token.is_of_isMark hclosing
  have hgoes := fun member hmember => Member.exists_first (hwf member hmember)
  unfold Grammar.members
  split
  · obtain ⟨hne, hseparators⟩ := henum rfl
    exact enumValues_accepts hwf hne hseparators hclosing
  · exact repeated_accepts (fun member hmember rest => field_accepts (hwf member hmember))
      hgoes hstop
  · rename_i henum' hdictionary
    exact repeated_accepts
      (fun member hmember rest => interfaceMember_accepts (hwf member hmember)
        ⟨hdictionary, henum'⟩)
      hgoes hstop

end Grammar

end WebIdl
