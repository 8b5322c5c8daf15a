import WebIdl.Proofs.Lexing.Ends
import WebIdl.Proofs.Syntax.Map

/-!
# Tokens that are read back

Tokens that are written one after the other are read back if each of them can be told from the
others: its text is one lexeme of its kind, and before it there is white space or a comment, all
complete, so that it does not run into what stands there.

* `Token.standsApart` — the check of one token.
* `Lexeme.tile_append` — two texts have their lexemes one after the other where the first of them
  ends before the second.
* `TokenStream.ofSource_of_standsApart` — the tokens of a text that is written from such tokens are
  these tokens, at their places, and nothing trails them.
-/

namespace WebIdl

/-- White space and comments, of which a line comment is not the last. -/
def isClosedTrivia (text : String) : Bool :=
  let lexemes := Lexeme.ofSource text
  lexemes.all (·.isTrivia) && lexemes.getLast?.all (·.kind != some .lineComment)

namespace Token

/-- The text of the token is one lexeme, of the kind of the token. -/
def lexesAlone (token : Token) : Bool :=
  match Lexeme.ofSource token.text with
  | [lexeme] => token.kind != .other && token.kind == Kind.ofLexeme lexeme.kind
  | _ => false

/-- The token is a lexeme, and there is something before it that keeps it from the last one. -/
def standsApart (token : Token) : Bool :=
  token.lexesAlone && token.trivia != "" && isClosedTrivia token.trivia

end Token

/-! ### Lexemes -/

namespace Lexeme

variable {s u : List Char} {lexeme : Lexeme}

theorem isTrivia_iff :
    lexeme.isTrivia ↔ ∃ kind : Kind, lexeme.kind = some kind ∧ kind.isTrivia := by
  obtain ⟨_ | kind, text⟩ := lexeme
  · simp [isTrivia]
  · cases kind <;> simp [isTrivia, Kind.isTrivia, plainKinds]

theorem Kind.endsBefore_of_mem {kind : Kind} {d : Char} (hkind : kind.isTrivia = false)
    (hd : d ∈ '/' :: blanks) : kind.endsBefore d := by
  have hd' : ('/' :: blanks).contains d := List.contains_iff_mem.mpr hd
  cases kind with
  | whitespace | lineComment | blockComment => cases hkind
  | string => rfl
  | integer | decimal | identifier | ellipsis | punctuation => exact hd'

theorem Kind.endsBefore_of_not_mem {kind : Kind} {d : Char} (hkind : kind.isTrivia)
    (hline : kind ≠ .lineComment) (hd : d ∉ '/' :: blanks) : kind.endsBefore d := by
  have hd' : d ∉ blanks := fun h => hd (List.mem_cons_of_mem _ h)
  cases kind with
  | whitespace => simpa [endsBefore] using hd'
  | lineComment => exact absurd rfl hline
  | blockComment => rfl
  | string | integer | decimal | identifier | ellipsis | punctuation => cases hkind

theorem tile_eq_nil : tile s = [] ↔ s = [] := by
  cases s <;> simp [tile]

/-- The lexeme cannot go on with the text after it. -/
def EndsBefore (lexeme : Lexeme) (u : List Char) : Prop :=
  ∃ kind, lexeme.kind = some kind ∧ ∀ d ∈ u.head?, kind.endsBefore d

/-- Two texts have their lexemes one after the other if the first lexeme is found again and the rest
has its lexemes so. -/
theorem tile_cons_append {c : Char} {kind : Option Kind} {more : Nat}
    (hmunch : munch (c :: s) = (kind, more)) (hagain : munch (c :: (s ++ u)) = (kind, more))
    (hrest : tile (s.drop more ++ u) = tile (s.drop more) ++ tile u) :
    tile (c :: s ++ u) = ⟨kind, String.ofList (c :: s.take more)⟩ :: tile (s.drop more) ++ tile u := by
  have hmore : more ≤ s.length := by simpa [hmunch] using munch_le_length c s
  rw [List.cons_append, tile, hagain]
  simp only [List.take_append_of_le_length hmore, List.drop_append_of_le_length hmore, hrest,
    List.cons_append]

theorem tile_append (htrivia : (tile s).dropLast.all (·.isTrivia))
    (hlast : ∀ lexeme ∈ (tile s).getLast?, lexeme.EndsBefore u) :
    tile (s ++ u) = tile s ++ tile u := by
  fun_induction tile s with
  | case1 => rfl
  | case2 c cs kind more hmunch ih =>
    have hmore : more ≤ cs.length := by simpa [hmunch] using munch_le_length c cs
    have hagain : munch (c :: (cs ++ u)) = (kind, more) := by
      by_cases hdrop : cs.drop more = []
      · simp only [hdrop, tile, List.getLast?_singleton, Option.mem_some_iff] at hlast
        obtain ⟨kind', rfl, hends⟩ := hlast _ rfl
        exact munch_append hmunch (.inr hends)
      · have htile : tile (cs.drop more) ≠ [] := fun h => hdrop (tile_eq_nil.mp h)
        rw [List.dropLast_cons_of_ne_nil htile, List.all_cons, Bool.and_eq_true] at htrivia
        obtain ⟨kind', rfl, hkind⟩ := isTrivia_iff.mp htrivia.1
        have hlt : more < cs.length := by
          have := List.length_pos_iff.mpr hdrop
          rw [List.length_drop] at this
          omega
        exact munch_append hmunch (.inl ⟨hkind, hlt⟩)
    have hrest : tile (cs.drop more ++ u) = tile (cs.drop more) ++ tile u := by
      refine ih ?_ fun lexeme hlexeme => hlast lexeme ?_
      · cases htile : tile (cs.drop more) with
        | nil => rfl
        | cons next rest =>
          rw [htile, List.dropLast_cons_of_ne_nil (List.cons_ne_nil _ _), List.all_cons,
            Bool.and_eq_true] at htrivia
          exact htrivia.2
      · rw [Option.mem_def] at hlexeme ⊢
        simp [List.getLast?_cons, hlexeme]
    exact tile_cons_append hmunch hagain hrest

/-- How a text begins whose first lexeme is known. -/
theorem opens_of_tile {rest : List Lexeme} {kind : Kind} (h : tile s = lexeme :: rest)
    (hkind : lexeme.kind = some kind) : Opens kind s := by
  cases s with
  | nil => simp [tile] at h
  | cons c s =>
    obtain ⟨found, more, hmunch⟩ : ∃ found more, munch (c :: s) = (found, more) := ⟨_, _, rfl⟩
    rw [tile, hmunch] at h
    obtain ⟨rfl, -⟩ := List.cons.inj h
    obtain rfl : found = some kind := hkind
    exact opens_of_munch hmunch

theorem Opens.head_mem {kind : Kind} (h : Opens kind s) (hkind : kind.isTrivia) :
    ∀ c ∈ s.head?, c ∈ '/' :: blanks := by
  cases h with
  | whitespace hc => simpa using .inr hc
  | lineComment | blockComment => simp
  | string => cases hkind
  | plain hplain => simp [Kind.isTrivia, hplain] at hkind

theorem Opens.head_not_mem {kind : Kind} (h : Opens kind s) (hkind : kind.isTrivia = false) :
    ∀ c ∈ s.head?, c ∉ '/' :: blanks := by
  cases h with
  | whitespace | lineComment | blockComment => cases hkind
  | string => simp [blanks]
  | plain hplain hc =>
    simp only [List.head?_cons, Option.mem_some_iff]
    rintro _ rfl
    exact fun h => hc (List.mem_cons_of_mem _ h)

end Lexeme

/-! ### Tokens -/

namespace Token

theorem exists_lexeme_of_lexesAlone {token : Token} (h : token.lexesAlone) :
    ∃ kind : Lexeme.Kind, Lexeme.tile token.text.toList = [⟨some kind, token.text⟩] ∧
      kind.isTrivia = false ∧ Kind.ofLexeme (some kind) = token.kind := by
  unfold lexesAlone at h
  split at h
  · rename_i lexeme hlexemes
    simp only [Bool.and_eq_true, bne_iff_ne, beq_iff_eq] at h
    obtain ⟨hother, hkind⟩ := h
    have htext : lexeme.text = token.text := by
      simpa [hlexemes] using Lexeme.join_text_ofSource token.text
    obtain ⟨kind | kind, text⟩ := lexeme
    · exact absurd hkind hother
    · refine ⟨kind, htext ▸ hlexemes, ?_, hkind.symm⟩
      cases kind with
      | whitespace | lineComment | blockComment => exact absurd hkind hother
      | integer | decimal | identifier | string | ellipsis | punctuation => rfl
  · cases h

end Token

namespace TokenStream

variable {token : Token} {tokens : List Token}

theorem ofLexemes_append_trivia (offset : Nat) (trivia : String) {front : List Lexeme}
    (h : front.all (·.isTrivia)) (lexemes : List Lexeme) :
    ofLexemes offset trivia (front ++ lexemes) =
      let text := String.join (front.map Lexeme.text)
      ofLexemes (offset + text.utf8ByteSize) (trivia ++ text) lexemes := by
  induction front generalizing offset trivia with
  | nil => simp
  | cons lexeme front ih =>
    rw [List.all_cons, Bool.and_eq_true] at h
    rw [List.cons_append, ofLexemes_cons_trivia h.1, ih _ _ h.2]
    simp [String.join_cons, String.append_assoc, Nat.add_assoc]

/-- What is written from tokens that stand apart begins with white space or a comment. -/
theorem head_mem_of_standsApart (h : ∀ token ∈ tokens, token.standsApart) :
    ∀ d ∈ (written tokens).toList.head?, d ∈ '/' :: Lexeme.blanks := by
  cases tokens with
  | nil => simp
  | cons token tokens =>
    have htoken := h token List.mem_cons_self
    simp only [Token.standsApart, isClosedTrivia, Bool.and_eq_true, bne_iff_ne] at htoken
    obtain ⟨⟨-, hne⟩, htrivia, -⟩ := htoken
    have hne' : token.trivia.toList ≠ [] := mt String.toList_eq_nil_iff.mp hne
    obtain ⟨lexeme, rest, htile⟩ :=
      List.exists_cons_of_ne_nil (mt Lexeme.tile_eq_nil.mp hne')
    rw [Lexeme.ofSource, htile, List.all_cons, Bool.and_eq_true] at htrivia
    obtain ⟨kind, hkind, hisTrivia⟩ := Lexeme.isTrivia_iff.mp htrivia.1
    have hhead := (Lexeme.opens_of_tile htile hkind).head_mem hisTrivia
    rw [written_cons, Token.written, String.append_assoc, String.toList_append]
    obtain ⟨c, s, hcs⟩ := List.exists_cons_of_ne_nil hne'
    rw [hcs] at hhead ⊢
    exact hhead

/-- The lexemes of a token that stands apart are its trivia and its text. -/
theorem tile_written {u : List Char} (h : token.standsApart)
    (hu : ∀ d ∈ u.head?, d ∈ '/' :: Lexeme.blanks) :
    ∃ kind : Lexeme.Kind, kind.isTrivia = false ∧ Token.Kind.ofLexeme (some kind) = token.kind ∧
      Lexeme.tile (token.written.toList ++ u) =
        Lexeme.ofSource token.trivia ++ ⟨some kind, token.text⟩ :: Lexeme.tile u := by
  simp only [Token.standsApart, isClosedTrivia, Bool.and_eq_true] at h
  obtain ⟨⟨halone, -⟩, htrivia, hlast⟩ := h
  obtain ⟨kind, htext, hkind, htoken⟩ := Token.exists_lexeme_of_lexesAlone halone
  refine ⟨kind, hkind, htoken, ?_⟩
  have hback : Lexeme.tile (token.text.toList ++ u) = ⟨some kind, token.text⟩ :: Lexeme.tile u := by
    rw [Lexeme.tile_append (by simp [htext]), htext, List.singleton_append]
    rw [htext]
    rintro _ ⟨⟩
    exact ⟨kind, rfl, fun d hd => Lexeme.Kind.endsBefore_of_mem hkind (hu d hd)⟩
  have hfront : (Lexeme.tile token.trivia.toList).dropLast.all (·.isTrivia) :=
    List.all_eq_true.mpr fun lexeme hmem =>
      List.all_eq_true.mp htrivia lexeme (List.dropLast_subset _ hmem)
  rw [Token.written, String.toList_append, List.append_assoc, Lexeme.tile_append hfront, hback,
    Lexeme.ofSource]
  intro lexeme hlexeme
  obtain ⟨kind', hsome, hisTrivia⟩ :=
    Lexeme.isTrivia_iff.mp (List.all_eq_true.mp htrivia lexeme (List.mem_of_getLast? hlexeme))
  have hnot : kind' ≠ .lineComment := by
    have := Option.all_eq_true _ _ |>.mp hlast lexeme hlexeme
    simpa [hsome] using this
  refine ⟨kind', hsome, fun d hd => ?_⟩
  have hd : d ∉ '/' :: Lexeme.blanks := by
    refine (Lexeme.opens_of_tile htext rfl).head_not_mem hkind d ?_
    obtain ⟨c, s, hcs⟩ : ∃ c s, token.text.toList = c :: s := by
      refine List.exists_cons_of_ne_nil fun hnil => ?_
      simp [hnil, Lexeme.tile] at htext
    rw [hcs] at hd ⊢
    exact hd
  exact Lexeme.Kind.endsBefore_of_not_mem hisTrivia hnot hd

theorem ofLexemes_of_standsApart (h : ∀ token ∈ tokens, token.standsApart) (offset : Nat) :
    (ofLexemes offset "" (Lexeme.tile (written tokens).toList)).tokens.map Token.unplaced =
        tokens.map Token.unplaced ∧
      (ofLexemes offset "" (Lexeme.tile (written tokens).toList)).trailing = "" := by
  induction tokens generalizing offset with
  | nil => simp [Lexeme.tile, ofLexemes]
  | cons token tokens ih =>
    have hrest := fun t ht => h t (List.mem_cons_of_mem _ ht)
    have htoken := h token List.mem_cons_self
    obtain ⟨kind, hkind, hofLexeme, htile⟩ :=
      tile_written htoken (head_mem_of_standsApart hrest)
    have htrivia : (Lexeme.ofSource token.trivia).all (·.isTrivia) := by
      simp only [Token.standsApart, isClosedTrivia, Bool.and_eq_true] at htoken
      exact htoken.2.1
    have hlexeme : ¬(⟨some kind, token.text⟩ : Lexeme).isTrivia := by
      intro htrivia
      obtain ⟨kind', hsome, htrue⟩ := Lexeme.isTrivia_iff.mp htrivia
      obtain rfl : kind = kind' := Option.some.inj hsome
      rw [hkind] at htrue
      cases htrue
    obtain ⟨htokens, htrailing⟩ :=
      ih hrest (offset + token.trivia.utf8ByteSize + token.text.utf8ByteSize)
    rw [written_cons, String.toList_append, htile, ofLexemes_append_trivia _ _ htrivia,
      Lexeme.join_text_ofSource, ofLexemes_cons_token hlexeme]
    refine ⟨?_, htrailing⟩
    rw [List.map_cons, List.map_cons, htokens]
    simp [Token.unplaced, hofLexeme]

theorem ofSource_of_standsApart (h : ∀ token ∈ tokens, token.standsApart) :
    (ofSource (written tokens)).tokens.map Token.unplaced = tokens.map Token.unplaced ∧
      (ofSource (written tokens)).trailing = "" :=
  ofLexemes_of_standsApart h 0

end TokenStream

end WebIdl
