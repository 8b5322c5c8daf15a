import WebIdl.Proofs.Grammar.Accept.Members
import WebIdl.Proofs.Grammar.Shapes.Definitions
import WebIdl.Proofs.Lexing.Prefix
import WebIdl.Proofs.Text.Slice

/-!
# Spans and leading trivia

Every node of a tree finds its first token by cases on what stands in it, and what it takes for the
trivia before it, and for its own text, is cut there. In a block that has been read, a definition
covers the source from its first token to its semicolon, and the next one starts, with its trivia,
where it ends.

* `Leads` — trivia and a text are what a row of tokens is written as, cut after the trivia of its
  first token.
* `IdlType.leads`, `Literal.leads`, `Definition.leads`, `Member.head?_tokens` — so they are for every
  node.
* `Definition.Covers` — where a definition stands in a source, and what it covers there.
-/

namespace WebIdl

/-- The trivia is that of the first token, and the text is all else that is written of the tokens. -/
structure Leads (trivia text : String) (tokens : List Token) : Prop where
  head : tokens.head?.map (·.trivia) = some trivia
  slice : Text.slice? (written tokens) ⟨trivia.utf8ByteSize, (written tokens).utf8ByteSize⟩ =
    some text
  written_eq : written tokens = trivia ++ text

theorem leads_of_eq_cons {first : Token} {tokens : List Token}
    (h : ∃ more, tokens = first :: more) :
    Leads first.trivia (first.text ++ written (tokens.drop 1)) tokens := by
  obtain ⟨more, rfl⟩ := h
  have hwritten : written (first :: more) = first.trivia ++ (first.text ++ written more) := by
    rw [written_cons, Token.written, String.append_assoc]
  refine ⟨rfl, ?_, hwritten⟩
  rw [hwritten]
  exact Text.slice?_append_right first.trivia (first.text ++ written more)

/-! ### Nodes -/

theorem IdlType.leads (type : IdlType) : Leads type.leadingTrivia type.text type.tokens :=
  leads_of_eq_cons type.tokens_eq_cons

/-- The first token of a literal. -/
def Literal.first : Literal → Token
  | .scalar _ token => token
  | .emptySequence opening _ | .emptyDictionary opening _ => opening

theorem Literal.leads (literal : Literal) :
    Leads literal.first.trivia literal.text literal.tokens := by
  have htext : literal.text = literal.first.text ++ written (literal.tokens.drop 1) := by
    cases literal <;> simp [text, first, tokens]
  have hcons : ∃ more, literal.tokens = literal.first :: more := by
    cases literal <;> exact ⟨_, rfl⟩
  rw [htext]
  exact leads_of_eq_cons hcons

/-- The leading trivia of a member is that of the first token that is written of it. -/
theorem Member.leads (member : Member) :
    ∃ text, Leads member.leadingTrivia text member.tokens := by
  obtain ⟨attrs, scope, form⟩ := member
  cases attrs with
  | some attrs =>
    obtain ⟨more, hmore⟩ := attrs.tokens_eq_cons
    have hcons : (Member.mk (some attrs) scope form).tokens =
        attrs.opening :: (more ++ form.tokens) := by
      rw [tokens, Option.elim_some, hmore, List.cons_append]
    exact ⟨_, leads_of_eq_cons ⟨_, hcons⟩⟩
  | none => exact ⟨_, leads_of_eq_cons form.tokens_eq_cons⟩

namespace Definition

theorem leads (d : Definition) : Leads d.leadingTrivia d.sourceText d.tokens :=
  leads_of_eq_cons ⟨_, d.tokens_eq_cons⟩

theorem Shaped.semicolon_is {d : Definition} (h : d.Shaped) : d.form.semicolon.is ";" := by
  have hmarked := h.form.marked
  obtain ⟨attrs, form⟩ := d
  cases form with
  | container => exact hmarked.2.2.2
  | typedef => exact hmarked
  | callback => exact hmarked.2
  | includes => exact hmarked.2.2

/-- The source text of a definition ends with its last token. -/
theorem exists_sourceText_eq (d : Definition) :
    ∃ front, d.sourceText = front ++ d.form.semicolon.text := by
  have hlast := d.getLast?_tokens
  rw [d.tokens_eq_cons] at hlast
  rw [List.getLast?_cons] at hlast
  rw [sourceText]
  cases hmore : (d.tokens.drop 1).getLast? with
  | none =>
    rw [hmore] at hlast
    have hfirst : d.first = d.form.semicolon := Option.some.inj hlast
    rw [List.getLast?_eq_none_iff.mp hmore, hfirst]
    exact ⟨"", by simp⟩
  | some last =>
    rw [hmore] at hlast
    have hlast : last = d.form.semicolon := Option.some.inj hlast
    obtain ⟨inside, hinside⟩ := List.getLast?_eq_some_iff.mp hmore
    rw [hinside, hlast]
    exact ⟨d.first.text ++ written inside ++ d.form.semicolon.trivia, by
      simp [Token.written, String.append_assoc]⟩

/-- Where a definition stands in a source: after what ends at an offset and its own trivia, up to
its semicolon. -/
structure Covers (source : String) (offset : Nat) (d : Definition) : Prop where
  start_eq : d.span.start = offset + d.leadingTrivia.utf8ByteSize
  slice : Text.slice? source d.span = some d.sourceText
  ends : ∃ front, d.sourceText = front ++ ";"

end Definition

namespace Block

open Definition

variable {before after : List Definition} {d : Definition} {source : String}
  {scope : Option String}

/-- A definition of a block starts where the text before it, and its own trivia, end, and stops where
its own text ends. -/
theorem span_eq_of_tokens {front back : List Token}
    (h : (TokenStream.ofSource source).tokens = front ++ (d.tokens ++ back)) :
    d.span = ⟨(written front).utf8ByteSize + d.leadingTrivia.utf8ByteSize,
      (written (front ++ d.tokens)).utf8ByteSize⟩ := by
  have hstart : d.first.start = (written front).utf8ByteSize + d.leadingTrivia.utf8ByteSize := by
    rw [d.tokens_eq_cons, List.cons_append] at h
    exact TokenStream.start_eq h
  obtain ⟨inside, hinside⟩ := List.getLast?_eq_some_iff.mp d.getLast?_tokens
  have hstop : d.form.semicolon.stop = (written (front ++ d.tokens)).utf8ByteSize := by
    have hsplit : (TokenStream.ofSource source).tokens =
        front ++ inside ++ d.form.semicolon :: back := by
      rw [h, hinside]
      simp
    rw [Token.stop, TokenStream.start_eq hsplit, hinside, ← List.append_assoc,
      written_append (front ++ inside)]
    simp [Token.written, Nat.add_assoc]
  rw [span, hstart, hstop]

/-- Where the last of these definitions ends, and 0 if there are none. -/
def stopOf (definitions : List Definition) : Nat := (definitions.getLast?.map (·.span.stop)).getD 0

theorem stopOf_eq {back : List Token}
    (h : (TokenStream.ofSource source).tokens = before.flatMap (·.tokens) ++ back) :
    stopOf before = (written (before.flatMap (·.tokens))).utf8ByteSize := by
  unfold stopOf
  cases hlast : before.getLast? with
  | none =>
    rw [List.getLast?_eq_none_iff.mp hlast]
    rfl
  | some last =>
    obtain ⟨front, rfl⟩ := List.getLast?_eq_some_iff.mp hlast
    rw [List.flatMap_append, List.flatMap_singleton, List.append_assoc] at h
    rw [Option.map_some, Option.getD_some, span_eq_of_tokens h, List.flatMap_append,
      List.flatMap_singleton]

/-- The tokens of a definition of a block stand after those of the definitions before it. -/
theorem exists_tokens_eq (h : (parse source scope).definitions = before ++ d :: after) :
    ∃ back, (TokenStream.ofSource source).tokens =
      before.flatMap (·.tokens) ++ (d.tokens ++ back) := by
  obtain ⟨rest, hrun, -⟩ := completed_parse source scope
  refine ⟨after.flatMap (·.tokens) ++ rest, ?_⟩
  rw [hrun.tokens_eq, h, List.flatMap_append, List.flatMap_cons, List.append_assoc,
    List.append_assoc]

theorem covers_parse (h : (parse source scope).definitions = before ++ d :: after) :
    d.Covers source (stopOf before) := by
  obtain ⟨back, htokens⟩ := exists_tokens_eq h
  have hspan := span_eq_of_tokens htokens
  refine ⟨by rw [stopOf_eq htokens, hspan], ?_, ?_⟩
  · -- the source is what stands before the definition, its trivia, its text and what follows
    have hsource : source = written (before.flatMap (·.tokens)) ++ d.leadingTrivia ++ d.sourceText ++
        (TokenStream.ofSource source).writtenFrom back := by
      have hwritten := TokenStream.written_ofSource source
      rw [htokens, written_append, written_append, d.written_tokens] at hwritten
      simpa [TokenStream.writtenFrom, String.append_assoc] using hwritten.symm
    apply Text.slice?_eq_some_iff.mpr
    refine ⟨_, _, hsource, ?_, ?_⟩
    · rw [hspan, String.utf8ByteSize_append]
    · rw [hspan, written_append, d.written_tokens, String.append_assoc]
  · have hmem : d ∈ (parse source scope).definitions := by
      rw [h]
      exact List.mem_append_right before List.mem_cons_self
    have his := (shaped_parse source scope d hmem).semicolon_is
    obtain ⟨front, hfront⟩ := d.exists_sourceText_eq
    exact ⟨front, by rw [hfront, Token.text_of_is his]⟩

/-- **A definition starts where the one before it ends and its own trivia, and its span is its source
text; and what each node takes for its leading trivia is that of its first token, so that its text
is all else that is written of it.** -/
theorem spans_exact (source : String) (scope : Option String) :
    (∀ (k : Nat) (d : Definition), (parse source scope).definitions[k]? = some d →
      d.Covers source (stopOf ((parse source scope).definitions.take k)) ∧
        Leads d.leadingTrivia d.sourceText d.tokens ∧
        ∀ m ∈ d.members, ∃ text, Leads m.leadingTrivia text m.tokens) ∧
      (∀ type : IdlType, Leads type.leadingTrivia type.text type.tokens) ∧
      ∀ literal : Literal, Leads literal.first.trivia literal.text literal.tokens := by
  refine ⟨?_, IdlType.leads, Literal.leads⟩
  intro k d hd
  obtain ⟨hk, rfl⟩ := List.getElem?_eq_some_iff.mp hd
  have hsplit := List.take_append_drop k (parse source scope).definitions
  rw [List.drop_eq_getElem_cons hk] at hsplit
  exact ⟨covers_parse hsplit.symm, leads _, fun m _ => m.leads⟩

/-- A typedef with a comment before it, and an attribute. -/
def commentedSource : String :=
  "enum E \x7b \"a\" \x7d;\n// b\n[X] typedef (long or sequence<A?>)? T;"

/-- The second definition starts after the first, a line break, and the comment. -/
theorem spans_exact_second :
    ∃ d, (parse commentedSource none).definitions[1]? = some d ∧
      d.leadingTrivia = "\n// b\n" ∧ d.span = ⟨21, 59⟩ ∧
        d.Covers commentedSource (stopOf ((parse commentedSource none).definitions.take 1)) := by
  have hread : (parse commentedSource none).definitions[1]?.map
      (fun d => (d.leadingTrivia, d.span)) = some ("\n// b\n", ⟨21, 59⟩) := by
    decide +kernel
  obtain ⟨d, hd, hfacts⟩ := Option.map_eq_some_iff.mp hread
  obtain ⟨htrivia, hspan⟩ := Prod.mk.inj hfacts
  exact ⟨d, hd, htrivia, hspan, ((spans_exact commentedSource none).1 1 d hd).1⟩

end Block

end WebIdl
