import WebIdl.Token

/-!
# Lexemes and tokens against the source

What the scanner gives back of the text it was given.

* `Pattern.Matches.of_after`, `Pattern.Matches.of_nullable` — following a pattern character by
  character finds only texts that the pattern matches.
* `Lexeme.matches_of_mem_tile` — the text of a lexeme matches a declared pattern of its kind, so
  that a string literal has both of its quotes (`Lexeme.isQuoted_of_kind_eq_string`).
* `Lexeme.join_text_tile` — the lexemes of a text, one after the other, are the text.
* `TokenStream.written_ofSource` — so are the tokens with their trivia, and what trails them.
-/

namespace WebIdl

namespace Lexeme

/-! ### Following a pattern -/

namespace Pattern

theorem Matches.of_nullable {p : Pattern} (h : p.nullable) : Matches p [] := by
  induction p with
  | void => simp [nullable] at h
  | empty => exact .empty
  | one accepts => simp [nullable] at h
  | seq p q ihp ihq =>
    simp only [nullable, Bool.and_eq_true] at h
    exact .seq (ihp h.1) (ihq h.2)
  | alt p q ihp ihq =>
    simp only [nullable, Bool.or_eq_true] at h
    rcases h with h | h
    · exact .left (ihp h)
    · exact .right (ihq h)
  | many p _ => exact .stop

/-- Leaving out a part that adds nothing adds no text to a sequence. -/
theorem Matches.of_joined {p q : Pattern} {s : List Char} (h : Matches (joined p q) s) :
    Matches (.seq p q) s := by
  unfold joined at h
  split at h
  · cases h
  · exact Matches.seq .empty h
  · exact h

theorem Matches.of_either {p q : Pattern} {s : List Char} (h : Matches (either p q) s) :
    Matches p s ∨ Matches q s := by
  unfold either at h
  split at h
  · exact .inr h
  · exact .inl h
  · cases h with
    | left h => exact .inl h
    | right h => exact .inr h

/-- What matches the rest of a pattern after a character matches the pattern with it. -/
theorem Matches.of_after {p : Pattern} {c : Char} {s : List Char} (h : Matches (p.after c) s) :
    Matches p (c :: s) := by
  induction p generalizing s with
  | void => cases h
  | empty => cases h
  | one accepts =>
    unfold after at h
    split at h
    · rename_i hc
      cases h
      exact .one hc
    · cases h
  | seq p q ihp ihq =>
    have joined {s : List Char} (h : Matches (joined (p.after c) q) s) :
        Matches (.seq p q) (c :: s) := by
      cases h.of_joined with
      | seq hp hq => exact .seq (ihp hp) hq
    unfold after at h
    split at h
    · rename_i hn
      rcases h.of_either with h | h
      · exact joined h
      · exact .seq (.of_nullable hn) (ihq h)
    · exact joined h
  | alt p q ihp ihq =>
    rcases Matches.of_either h with h | h
    · exact .left (ihp h)
    · exact .right (ihq h)
  | many p ih =>
    cases Matches.of_joined h with
    | seq hp hq => exact .more (ih hp) hq

end Pattern

/-! ### The longest match -/

theorem exists_of_mem_follow {c : Char} {patterns : List (Kind × Pattern)} {kind : Kind}
    {p : Pattern} (h : (kind, p) ∈ follow c patterns) :
    ∃ q, (kind, q) ∈ patterns ∧ p = q.after c := by
  simp only [follow, List.mem_filter, List.mem_map, Prod.exists, Prod.mk.injEq] at h
  obtain ⟨⟨_, q, hq, rfl, rfl⟩, -⟩ := h
  exact ⟨q, hq, rfl⟩

theorem exists_of_reached {patterns : List (Kind × Pattern)} {kind : Kind}
    (h : reached patterns = some kind) : ∃ p, (kind, p) ∈ patterns ∧ p.nullable := by
  simp only [reached, Option.map_eq_some_iff, Prod.exists] at h
  obtain ⟨_, p, hfound, rfl⟩ := h
  exact ⟨p, List.mem_of_find?_eq_some hfound, by simpa using List.find?_some hfound⟩

/-- What is taken for a kind is a non-empty prefix that one of its patterns matches. -/
theorem matches_of_longest {patterns : List (Kind × Pattern)} {cs : List Char} {kind : Kind}
    {n : Nat} (h : longest patterns cs = some (kind, n)) :
    0 < n ∧ ∃ p, (kind, p) ∈ patterns ∧ p.Matches (cs.take n) := by
  induction cs generalizing patterns n with
  | nil => simp [longest] at h
  | cons c cs ih =>
    -- a match of what is left after `c`, of any length, is a match that is one longer
    have extend {p : Pattern} {m : Nat} (hp : (kind, p) ∈ follow c patterns)
        (hm : p.Matches (cs.take m)) :
        ∃ q, (kind, q) ∈ patterns ∧ q.Matches ((c :: cs).take (m + 1)) := by
      obtain ⟨q, hq, rfl⟩ := exists_of_mem_follow hp
      exact ⟨q, hq, hm.of_after⟩
    unfold longest at h
    split at h
    · cases h
    · split at h
      · rename_i hrec
        obtain ⟨rfl, rfl⟩ := Prod.mk.inj (Option.some.inj h)
        obtain ⟨-, p, hp, hm⟩ := ih hrec
        exact ⟨Nat.succ_pos _, extend hp hm⟩
      · obtain ⟨k, hk, he⟩ := Option.map_eq_some_iff.mp h
        obtain ⟨rfl, rfl⟩ := Prod.mk.inj he
        obtain ⟨p, hp, hnull⟩ := exists_of_reached hk
        exact ⟨Nat.succ_pos _, extend hp (m := 0) (.of_nullable hnull)⟩

/-! ### The lexemes of a text -/

/-- The lexemes of a text lose nothing of it and add nothing to it. -/
theorem join_text_tile (cs : List Char) :
    String.join ((tile cs).map Lexeme.text) = String.ofList cs := by
  fun_induction tile cs with
  | case1 => rfl
  | case2 c cs kind more hmunch ih =>
    rw [List.map_cons, String.join_cons, ih, ← String.ofList_append, List.cons_append,
      List.take_append_drop]

theorem join_text_ofSource (source : String) :
    String.join ((ofSource source).map Lexeme.text) = source := by
  rw [ofSource, join_text_tile, String.ofList_toList]

theorem matches_of_mem_tile {cs : List Char} {lexeme : Lexeme} {kind : Kind}
    (hmem : lexeme ∈ tile cs) (hkind : lexeme.kind = some kind) :
    ∃ p, (kind, p) ∈ declared ∧ p.Matches lexeme.text.toList := by
  fun_induction tile cs with
  | case1 => cases hmem
  | case2 c cs k more hmunch ih =>
    rcases List.mem_cons.mp hmem with rfl | hmem
    · simp only at hkind
      subst hkind
      unfold munch at hmunch
      split at hmunch
      · rename_i n hlongest
        obtain ⟨hk, rfl⟩ := Prod.mk.inj hmunch
        obtain rfl := Option.some.inj hk
        obtain ⟨hpos, p, hp, hm⟩ := matches_of_longest hlongest
        refine ⟨p, hp, ?_⟩
        obtain ⟨m, rfl⟩ := Nat.exists_eq_add_of_lt hpos
        simpa using hm
      · cases (Prod.mk.inj hmunch).1
    · exact ih hmem

/-- Text between double quotes. -/
def IsQuoted (text : String) : Prop := ∃ body : String, text = "\"" ++ body ++ "\""

theorem isQuoted_of_matches {text : String} (h : stringPattern.Matches text.toList) :
    IsQuoted text := by
  generalize hcs : text.toList = cs at h
  simp only [stringPattern, Pattern.chain] at h
  cases h with
  | @seq _ _ s t hopening hrest =>
    cases hrest with
    | @seq _ _ body u _ hclosing =>
      obtain rfl : s = ['"'] := by
        cases hopening with
        | one h => simpa using h
      obtain rfl : u = ['"'] := by
        cases hclosing with
        | one h => simpa using h
      refine ⟨String.ofList body, ?_⟩
      rw [← String.ofList_toList (s := text), hcs, String.ofList_append, String.ofList_append]
      simp [String.append_assoc]

theorem isQuoted_of_kind_eq_string {source : String} {lexeme : Lexeme}
    (hmem : lexeme ∈ ofSource source) (hkind : lexeme.kind = some .string) :
    IsQuoted lexeme.text := by
  obtain ⟨p, hp, hm⟩ := matches_of_mem_tile hmem hkind
  have : p = stringPattern := by simpa [declared] using hp
  exact isQuoted_of_matches (this ▸ hm)

end Lexeme

/-! ### Tokens -/

@[simp] theorem written_nil : written [] = "" := rfl

@[simp] theorem written_cons (token : Token) (tokens : List Token) :
    written (token :: tokens) = token.written ++ written tokens := by
  simp [written]

@[simp] theorem written_append (xs ys : List Token) :
    written (xs ++ ys) = written xs ++ written ys := by
  simp [written]

theorem Token.Kind.ofLexeme_eq_string {kind : Option Lexeme.Kind} :
    Kind.ofLexeme kind = .string ↔ kind = some .string := by
  rcases kind with _ | kind
  · simp [Kind.ofLexeme]
  · cases kind <;> simp [Kind.ofLexeme]

/-- Quotes around an unquoted literal make it whole again. -/
theorem quote_unquote {text : String} (h : Lexeme.IsQuoted text) :
    "\"" ++ unquote text ++ "\"" = text := by
  obtain ⟨body, rfl⟩ := h
  simp [unquote]

namespace TokenStream

theorem written_ofLexemes (offset : Nat) (trivia : String) (lexemes : List Lexeme) :
    written (ofLexemes offset trivia lexemes).tokens ++ (ofLexemes offset trivia lexemes).trailing
      = trivia ++ String.join (lexemes.map Lexeme.text) := by
  induction lexemes generalizing offset trivia with
  | nil => simp [ofLexemes]
  | cons lexeme rest ih =>
    unfold ofLexemes
    split
    · rw [ih, List.map_cons, String.join_cons, String.append_assoc]
    · simp only [written_cons, Token.written, String.append_assoc, ih, List.map_cons,
        String.join_cons, String.empty_append]

/-- The tokens of a source with their trivia, and then what trails the last, are the source. -/
theorem written_ofSource (source : String) :
    written (ofSource source).tokens ++ (ofSource source).trailing = source := by
  rw [ofSource, written_ofLexemes, Lexeme.join_text_ofSource, String.empty_append]

theorem exists_lexeme_of_mem {offset : Nat} {trivia : String} {lexemes : List Lexeme}
    {token : Token} (h : token ∈ (ofLexemes offset trivia lexemes).tokens) :
    ∃ lexeme ∈ lexemes,
      token.kind = Token.Kind.ofLexeme lexeme.kind ∧ token.text = lexeme.text := by
  induction lexemes generalizing offset trivia with
  | nil => cases h
  | cons lexeme rest ih =>
    unfold ofLexemes at h
    split at h
    · obtain ⟨l, hl, heq⟩ := ih h
      exact ⟨l, List.mem_cons_of_mem _ hl, heq⟩
    · rcases List.mem_cons.mp h with rfl | h
      · exact ⟨lexeme, List.mem_cons_self, rfl, rfl⟩
      · obtain ⟨l, hl, heq⟩ := ih h
        exact ⟨l, List.mem_cons_of_mem _ hl, heq⟩

/-- A string token has both of its quotes. -/
theorem isQuoted_of_mem {source : String} {token : Token} (h : token ∈ (ofSource source).tokens)
    (hkind : token.kind = .string) : Lexeme.IsQuoted token.text := by
  obtain ⟨lexeme, hmem, hk, ht⟩ := exists_lexeme_of_mem h
  rw [ht]
  exact Lexeme.isQuoted_of_kind_eq_string hmem (Token.Kind.ofLexeme_eq_string.mp (hk ▸ hkind))

end TokenStream

end WebIdl
