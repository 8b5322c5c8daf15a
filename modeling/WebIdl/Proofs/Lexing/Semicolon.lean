import WebIdl.Proofs.Lexing.Written

/-!
# Texts that end with a semicolon

No lexeme goes on over a semicolon except a comment or a string literal, and these end where they
are closed. So a text whose last lexeme is a semicolon keeps its lexemes whatever text is put after
it, and that text has the lexemes it has on its own, even where it starts in the middle of what
would have been a comment, or runs into the end within a literal.

* `Lexeme.munch_append_of_viable` — a lexeme, or a rejected text, that no pattern is followed to the
  end of the text from is found again.
* `Lexeme.tile_append_of_semicolon` — the lexemes of a text that ends with a semicolon and of what
  is put after it, one after the other.
* `Token.shift` — a token that many bytes further on.
* `TokenStream.ofSource_append` — the tokens of both texts, those of the second moved by the length
  of the first.
-/

namespace WebIdl

namespace Lexeme

variable {s u : List Char} {c : Char} {lexeme : Lexeme}

/-! ### Lexemes that are found again -/

theorem viable_append {patterns : List (Kind × Pattern)}
    (h : viable patterns s < s.length) : viable patterns (s ++ u) = viable patterns s := by
  induction s generalizing patterns with
  | nil => cases h
  | cons c s ih =>
    by_cases hfollow : follow c patterns = []
    · simp [viable, hfollow]
    · rw [viable_cons hfollow] at h
      rw [List.cons_append, viable_cons hfollow, viable_cons hfollow,
        ih (Nat.lt_of_succ_lt_succ h)]

theorem munch_append_of_viable (h : viable declared (c :: s) < (c :: s).length) :
    munch (c :: (s ++ u)) = munch (c :: s) := by
  have hviable : viable declared (c :: s ++ u) = viable declared (c :: s) := viable_append h
  have hlongest : longest declared (c :: s ++ u) = longest declared (c :: s) := by
    apply longest_append
    rw [hviable]
    exact Nat.le_of_lt h
  rw [← List.cons_append, munch, munch, hlongest, hviable]

theorem follow_semicolon : follow ';' declared = [(.punctuation, .empty)] := rfl

theorem munch_semicolon (s : List Char) : munch (';' :: s) = (some .punctuation, 0) := by
  apply munch_of_longest
  rw [longest_cons (by simp [follow_semicolon]), follow_semicolon, longest_empty]
  rfl

/-- The kinds without quotes and slashes are followed over no semicolon but their first character. -/
theorem mentions_semicolon_of_mem_follow {kind : Kind} {p : Pattern}
    (hc : c ∉ '"' :: '/' :: blanks) (h : (kind, p) ∈ follow c declared) :
    p.mentions ';' = false := by
  have hkind := (of_mem_follow_plain hc h).1
  obtain ⟨q, hq, rfl, -⟩ := mem_follow.mp h
  by_cases hpunctuation : kind = .punctuation
  · subst hpunctuation
    obtain rfl : q = punctuationPattern := by simpa [declared] using hq
    rw [punctuationPattern, Pattern.anyOf, Pattern.after]
    split <;> rfl
  · apply Pattern.mentions_after
    have hall : ∀ entry ∈ declared, entry.1 ∈ plainKinds → entry.1 ≠ .punctuation →
        entry.2.mentions ';' = false := by decide +kernel
    exact hall (kind, q) hq hkind hpunctuation

theorem viable_semicolon_lt (hc : c ∉ '"' :: '/' :: blanks) :
    viable declared (c :: (s ++ [';'])) < (c :: (s ++ [';'])).length := by
  by_cases hfollow : follow c declared = []
  · simp [viable, hfollow]
  · rw [viable_cons hfollow]
    have hrest := viable_append_of_unmentioned (s := s) (u := [])
      fun kind p hp => mentions_semicolon_of_mem_follow hc hp
    simp only [List.length_cons, List.length_append, List.length_nil]
    omega

/-- In a text that ends with a semicolon, a lexeme that leaves something of the text is found again
before any other text. -/
theorem munch_append_of_lt {kind : Option Kind} {n : Nat} (hend : [';'] <:+ s)
    (hmunch : munch (c :: s) = (kind, n)) (hn : n < s.length) :
    munch (c :: (s ++ u)) = (kind, n) := by
  cases kind with
  | none =>
    rw [munch_append_of_viable _, hmunch]
    unfold munch at hmunch
    split at hmunch
    · cases (Prod.mk.inj hmunch).1
    · obtain ⟨-, hviable⟩ := Prod.mk.inj hmunch
      rw [List.length_cons]
      omega
  | some kind =>
    cases opens_of_munch hmunch with
    | whitespace | lineComment => exact munch_append hmunch (.inl ⟨rfl, hn⟩)
    | blockComment | string => exact munch_append hmunch (.inr fun _ _ => rfl)
    | plain hkind hc =>
      obtain ⟨front, rfl⟩ := hend
      rw [munch_append_of_viable (viable_semicolon_lt hc), hmunch]

/-! ### The lexemes of two texts -/

/-- The last lexeme of a text ends the text. -/
theorem text_suffix_of_tile (h : lexeme ∈ (tile s).getLast?) : lexeme.text.toList <:+ s := by
  fun_induction tile s with
  | case1 => cases h
  | case2 c cs kind more hmunch ih =>
    by_cases hdrop : cs.drop more = []
    · have hall : cs.take more = cs := List.take_of_length_le (List.drop_eq_nil_iff.mp hdrop)
      rw [hdrop, tile, List.getLast?_singleton, Option.mem_some_iff] at h
      have htext : lexeme.text.toList = c :: cs := by rw [← h, hall, String.toList_ofList]
      exact htext ▸ List.suffix_rfl
    · have hne : tile (cs.drop more) ≠ [] := mt tile_eq_nil.mp hdrop
      rw [List.getLast?_cons_of_ne_nil hne] at h
      exact (ih h).trans ((List.drop_suffix more cs).trans (List.suffix_cons c cs))

/-- A text that ends with a semicolon keeps its lexemes before any other text. -/
theorem tile_append_of_semicolon (hlast : ∀ lexeme ∈ (tile s).getLast?, lexeme.text = ";") :
    tile (s ++ u) = tile s ++ tile u := by
  fun_induction tile s with
  | case1 => rfl
  | case2 c cs kind more hmunch ih =>
    by_cases hdrop : cs.drop more = []
    · have hall : cs.take more = cs := List.take_of_length_le (List.drop_eq_nil_iff.mp hdrop)
      rw [hdrop, hall, tile, List.getLast?_singleton] at hlast
      have hcs : c :: cs = [';'] := by simpa using congrArg String.toList (hlast _ rfl)
      obtain ⟨rfl, rfl⟩ := List.cons.inj hcs
      apply tile_cons_append hmunch
      · rw [← hmunch, munch_semicolon, munch_semicolon]
      · simp [tile]
    · have hne : tile (cs.drop more) ≠ [] := mt tile_eq_nil.mp hdrop
      rw [List.getLast?_cons_of_ne_nil hne] at hlast
      have hend : [';'] <:+ cs := by
        obtain ⟨lexeme, hlexeme⟩ := List.getLast?_isSome.mpr hne |> Option.isSome_iff_exists.mp
        have hsuffix := text_suffix_of_tile hlexeme
        rw [hlast lexeme hlexeme] at hsuffix
        exact hsuffix.trans (List.drop_suffix more cs)
      have hmore : more < cs.length := by
        apply Nat.lt_of_not_le
        intro hle
        exact hdrop (List.drop_eq_nil_of_le hle)
      exact tile_cons_append hmunch (munch_append_of_lt hend hmunch hmore) (ih hlast)

end Lexeme

/-! ### Tokens that are moved -/

/-- The token that many bytes further on. -/
def Token.shift (bytes : Nat) (token : Token) : Token := { token with start := token.start + bytes }

theorem Token.keeps_shift (bytes : Nat) : Token.Keeps (shift bytes) := ⟨fun _ => rfl, fun _ => rfl⟩

theorem written_map_shift (bytes : Nat) (tokens : List Token) :
    written (tokens.map (Token.shift bytes)) = written tokens := by
  rw [written, written, List.map_map]
  rfl

namespace TokenStream

variable {offset : Nat} {trivia : String} {front back : List Lexeme}

/-- Tokens are collected from two runs of lexemes as from one: the second goes on where the first
has ended, with the trivia that is left over. -/
theorem ofLexemes_append :
    ofLexemes offset trivia (front ++ back) =
      let before := ofLexemes offset trivia front
      let after := ofLexemes before.size before.trailing back
      ⟨before.tokens ++ after.tokens, after.trailing, after.size⟩ := by
  induction front generalizing offset trivia with
  | nil => rfl
  | cons lexeme front ih =>
    by_cases hlexeme : lexeme.isTrivia
    · rw [List.cons_append, ofLexemes_cons_trivia hlexeme, ofLexemes_cons_trivia hlexeme, ih]
    · rw [List.cons_append, ofLexemes_cons_token hlexeme, ofLexemes_cons_token hlexeme, ih]
      rfl

/-- Lexemes that start further on have their tokens further on. -/
theorem ofLexemes_add (bytes : Nat) (lexemes : List Lexeme) :
    ofLexemes (offset + bytes) trivia lexemes =
      let stream := ofLexemes offset trivia lexemes
      ⟨stream.tokens.map (Token.shift bytes), stream.trailing, stream.size + bytes⟩ := by
  induction lexemes generalizing offset trivia with
  | nil => rfl
  | cons lexeme rest ih =>
    have hnext : offset + bytes + lexeme.text.utf8ByteSize =
        offset + lexeme.text.utf8ByteSize + bytes := Nat.add_right_comm ..
    by_cases hlexeme : lexeme.isTrivia
    · rw [ofLexemes_cons_trivia hlexeme, ofLexemes_cons_trivia hlexeme, hnext, ih]
    · rw [ofLexemes_cons_token hlexeme, ofLexemes_cons_token hlexeme, hnext, ih]
      rfl

/-- Where nothing trails the last token, the last token is the last lexeme. -/
theorem getLast?_of_ofLexemes {lexemes : List Lexeme} (hne : ∀ lexeme ∈ lexemes, lexeme.text ≠ "")
    (htrailing : (ofLexemes offset trivia lexemes).trailing = "") {lexeme : Lexeme}
    (hlast : lexeme ∈ lexemes.getLast?) :
    ∃ token ∈ (ofLexemes offset trivia lexemes).tokens.getLast?, token.text = lexeme.text := by
  obtain ⟨front, rfl⟩ := List.getLast?_eq_some_iff.mp hlast
  have htext := hne lexeme (by simp)
  rw [ofLexemes_append] at htrailing ⊢
  dsimp only at htrailing ⊢
  by_cases hlexeme : lexeme.isTrivia
  · rw [ofLexemes_cons_trivia hlexeme] at htrailing
    exact absurd (String.append_eq_empty_iff.mp htrailing).2 htext
  · rw [ofLexemes_cons_token hlexeme]
    exact ⟨_, List.getLast?_concat, rfl⟩

/-- The tokens of a source that is put after one that ends with a semicolon are those it has on its
own, further on by the length of the first. -/
theorem ofSource_append {a b : String} (htrailing : (ofSource a).trailing = "")
    (hlast : ∀ token ∈ (ofSource a).tokens.getLast?, token.text = ";") :
    (ofSource (a ++ b)).tokens =
        (ofSource a).tokens ++ (ofSource b).tokens.map (Token.shift a.utf8ByteSize) ∧
      (ofSource (a ++ b)).trailing = (ofSource b).trailing := by
  have hlexemes : Lexeme.ofSource (a ++ b) = Lexeme.ofSource a ++ Lexeme.ofSource b := by
    rw [Lexeme.ofSource, String.toList_append]
    apply Lexeme.tile_append_of_semicolon
    intro lexeme hlexeme
    obtain ⟨token, htoken, htext⟩ :=
      getLast?_of_ofLexemes (fun _ => Lexeme.text_ne_of_mem_tile) htrailing hlexeme
    rw [← htext, hlast token htoken]
  have hsize : (ofLexemes 0 "" (Lexeme.ofSource a)).size = 0 + a.utf8ByteSize := by
    rw [Nat.zero_add]
    exact size_ofSource a
  have htrailing : (ofLexemes 0 "" (Lexeme.ofSource a)).trailing = "" := htrailing
  rw [ofSource, hlexemes, ofLexemes_append]
  dsimp only
  rw [hsize, htrailing, ofLexemes_add]
  exact ⟨rfl, rfl⟩

end TokenStream

end WebIdl
