import WebIdl.Proofs.Lexing

/-!
# Reading the front of a source again

A lexeme is found without looking past its end, as far as that end is known, so a source that is
cut between two lexemes has, up to the cut, the lexemes it had.

* `Lexeme.munch_of_append` — the first lexeme of a text is that of any front of the text which holds
  it.
* `Lexeme.exists_of_tile_eq_append` — a text can be cut wherever one of its lexemes ends.
* `TokenStream.ofSource_written` — the source text of the first few tokens of a source has these
  tokens and no others, and nothing trails them.
* `TokenStream.start_eq` — a token is where the text of the tokens before it, and its own trivia,
  end.
-/

namespace WebIdl

namespace Lexeme

variable {patterns : List (Kind × Pattern)} {s u : List Char}

theorem longest_cons_of_nil {c : Char} (h : follow c patterns = []) :
    longest patterns (c :: s) = none := by
  simp [longest, h]

theorem longest_cons {c : Char} (h : follow c patterns ≠ []) :
    longest patterns (c :: s) = match longest (follow c patterns) s with
      | some (kind, n) => some (kind, n + 1)
      | none => (reached (follow c patterns)).map (·, 1) := by
  rw [longest]
  split
  · contradiction
  · rfl

theorem viable_cons {c : Char} (h : follow c patterns ≠ []) :
    viable patterns (c :: s) = viable (follow c patterns) s + 1 := by
  rw [viable]
  split
  · contradiction
  · rfl

theorem le_length_of_longest {kind : Kind} {n : Nat} (h : longest patterns s = some (kind, n)) :
    n ≤ s.length := by
  induction s generalizing patterns n with
  | nil => simp [longest] at h
  | cons c s ih =>
    by_cases hfollow : follow c patterns = []
    · simp [longest_cons_of_nil hfollow] at h
    · rw [longest_cons hfollow] at h
      split at h
      · rename_i hrec
        obtain ⟨rfl, rfl⟩ := Prod.mk.inj (Option.some.inj h)
        exact Nat.succ_le_succ (ih hrec)
      · obtain ⟨k, -, he⟩ := Option.map_eq_some_iff.mp h
        obtain ⟨rfl, rfl⟩ := Prod.mk.inj he
        simp

theorem viable_le_length : viable patterns s ≤ s.length := by
  induction s generalizing patterns with
  | nil => simp [viable]
  | cons c s ih =>
    unfold viable
    split
    · simp
    · exact Nat.succ_le_succ ih

theorem munch_le_length (c : Char) (s : List Char) : (munch (c :: s)).2 ≤ s.length := by
  unfold munch
  split
  · rename_i kind n h
    have := le_length_of_longest h
    simp only [List.length_cons] at this ⊢
    omega
  · have : viable declared (c :: s) ≤ (c :: s).length := viable_le_length
    simp only [List.length_cons] at this ⊢
    omega

/-! ### Texts that are continued -/

/-- A text in which nothing is found has no front in which something is found. -/
theorem longest_eq_none_of_append (h : longest patterns (s ++ u) = none) :
    longest patterns s = none := by
  induction s generalizing patterns with
  | nil => rfl
  | cons c s ih =>
    by_cases hfollow : follow c patterns = []
    · exact longest_cons_of_nil hfollow
    · rw [List.cons_append, longest_cons hfollow] at h
      rw [longest_cons hfollow]
      cases hrec : longest (follow c patterns) (s ++ u) with
      | some found => simp [hrec] at h
      | none => simpa [hrec, ih hrec] using h

theorem longest_of_append {kind : Kind} {n : Nat}
    (h : longest patterns (s ++ u) = some (kind, n)) (hn : n ≤ s.length) :
    longest patterns s = some (kind, n) := by
  induction s generalizing patterns n with
  | nil =>
    have := (matches_of_longest h).1
    simp only [List.length_nil] at hn
    omega
  | cons c s ih =>
    by_cases hfollow : follow c patterns = []
    · simp [longest_cons_of_nil hfollow] at h
    · rw [List.cons_append, longest_cons hfollow] at h
      rw [longest_cons hfollow]
      cases hrec : longest (follow c patterns) (s ++ u) with
      | none => simpa [hrec, longest_eq_none_of_append hrec] using h
      | some found =>
        rw [hrec] at h
        obtain ⟨rfl, rfl⟩ := Prod.mk.inj (Option.some.inj h)
        rw [ih hrec (Nat.le_of_succ_le_succ hn)]

theorem viable_of_append (h : viable patterns (s ++ u) ≤ s.length) :
    viable patterns s = viable patterns (s ++ u) := by
  induction s generalizing patterns with
  | nil => exact (Nat.le_zero.mp h).symm
  | cons c s ih =>
    by_cases hfollow : follow c patterns = []
    · simp [viable, hfollow]
    · rw [List.cons_append, viable_cons hfollow] at h
      rw [List.cons_append, viable_cons hfollow, viable_cons hfollow,
        ih (Nat.le_of_succ_le_succ h)]

theorem munch_of_append {c : Char} (h : (munch (c :: (s ++ u))).2 ≤ s.length) :
    munch (c :: s) = munch (c :: (s ++ u)) := by
  rw [← List.cons_append] at h ⊢
  unfold munch at h ⊢
  cases hall : longest declared (c :: s ++ u) with
  | some found =>
    obtain ⟨kind, n⟩ := found
    rw [hall] at h
    rw [longest_of_append hall (by simpa using h)]
  | none =>
    rw [hall] at h
    rw [longest_eq_none_of_append hall, viable_of_append (by simpa using h)]

/-- A text can be cut where one of its lexemes ends. -/
theorem exists_of_tile_eq_append {cs : List Char} {front back : List Lexeme}
    (h : tile cs = front ++ back) : ∃ s u, cs = s ++ u ∧ tile s = front ∧ tile u = back := by
  fun_induction tile cs generalizing front with
  | case1 =>
    obtain ⟨rfl, rfl⟩ := List.append_eq_nil_iff.mp h.symm
    exact ⟨[], [], rfl, by simp [tile], by simp [tile]⟩
  | case2 c cs kind more hmunch ih =>
    cases front with
    | nil => exact ⟨[], c :: cs, rfl, by simp [tile], by rw [tile, hmunch]; exact h⟩
    | cons lexeme front =>
      obtain ⟨rfl, hrest⟩ := List.cons.inj h
      obtain ⟨s, u, hdrop, rfl, rfl⟩ := ih hrest
      have hmore : more ≤ cs.length := by simpa [hmunch] using munch_le_length c cs
      have hcs : cs = cs.take more ++ s ++ u := by
        rw [List.append_assoc, ← hdrop, List.take_append_drop]
      have hlength : (cs.take more).length = more := List.length_take_of_le hmore
      have hagain : munch (c :: (cs.take more ++ s)) = (kind, more) := by
        rw [munch_of_append (u := u), ← hcs, hmunch]
        rw [← hcs, hmunch, List.length_append, hlength]
        exact Nat.le_add_right _ _
      refine ⟨c :: (cs.take more ++ s), u, by rw [List.cons_append, ← hcs], ?_, rfl⟩
      rw [tile, hagain]
      simp [hlength]

theorem text_ne_of_mem_tile {cs : List Char} {lexeme : Lexeme} (h : lexeme ∈ tile cs) :
    lexeme.text ≠ "" := by
  fun_induction tile cs with
  | case1 => cases h
  | case2 c cs kind more hmunch ih =>
    rcases List.mem_cons.mp h with rfl | h
    · intro hempty
      simpa using congrArg String.toList hempty
    · exact ih h

end Lexeme

namespace TokenStream

variable {offset : Nat} {trivia : String} {lexemes : List Lexeme} {front back : List Token}

theorem ofLexemes_cons_trivia {lexeme : Lexeme} (h : lexeme.isTrivia) :
    ofLexemes offset trivia (lexeme :: lexemes) =
      ofLexemes (offset + lexeme.text.utf8ByteSize) (trivia ++ lexeme.text) lexemes := by
  rw [ofLexemes, if_pos h]

theorem ofLexemes_cons_token {lexeme : Lexeme} (h : ¬lexeme.isTrivia) :
    ofLexemes offset trivia (lexeme :: lexemes) =
      let stream := ofLexemes (offset + lexeme.text.utf8ByteSize) "" lexemes
      { stream with
        tokens := ⟨Token.Kind.ofLexeme lexeme.kind, trivia, lexeme.text, offset⟩
          :: stream.tokens } := by
  rw [ofLexemes, if_neg h]

theorem exists_of_tokens_eq_append (h : (ofLexemes offset trivia lexemes).tokens = front ++ back) :
    ∃ xs ys, lexemes = xs ++ ys ∧ (ofLexemes offset trivia xs).tokens = front ∧
      (ofLexemes offset trivia xs).trailing = if front = [] then trivia else "" := by
  induction lexemes generalizing offset trivia front with
  | nil =>
    obtain ⟨rfl, -⟩ := List.append_eq_nil_iff.mp h.symm
    exact ⟨[], [], rfl, rfl, rfl⟩
  | cons lexeme rest ih =>
    cases front with
    | nil => exact ⟨[], lexeme :: rest, rfl, rfl, rfl⟩
    | cons first front =>
      by_cases hlexeme : lexeme.isTrivia
      · rw [ofLexemes_cons_trivia hlexeme] at h
        obtain ⟨xs, ys, rfl, htokens, htrailing⟩ := ih h
        refine ⟨lexeme :: xs, ys, rfl, ?_, ?_⟩
        · rw [ofLexemes_cons_trivia hlexeme, htokens]
        · rw [ofLexemes_cons_trivia hlexeme, htrailing, if_neg nofun, if_neg nofun]
      · rw [ofLexemes_cons_token hlexeme] at h
        obtain ⟨rfl, hrest⟩ := List.cons.inj h
        obtain ⟨xs, ys, rfl, htokens, htrailing⟩ := ih hrest
        refine ⟨lexeme :: xs, ys, rfl, ?_, ?_⟩
        · simp [ofLexemes_cons_token hlexeme, htokens]
        · simp [ofLexemes_cons_token hlexeme, htrailing]

/-- The first few tokens of a source are those of their source text. -/
theorem ofSource_written {source : String} (h : (ofSource source).tokens = front ++ back) :
    (ofSource (written front)).tokens = front ∧ (ofSource (written front)).trailing = "" := by
  obtain ⟨xs, ys, hlexemes, htokens, htrailing⟩ := exists_of_tokens_eq_append h
  have htrailing : (ofLexemes 0 "" xs).trailing = "" := by simpa using htrailing
  obtain ⟨s, u, -, rfl, -⟩ := Lexeme.exists_of_tile_eq_append hlexemes
  have hwritten : written front = String.ofList s := by
    have := written_ofLexemes 0 "" (Lexeme.tile s)
    simpa [htokens, htrailing, Lexeme.join_text_tile] using this
  rw [hwritten, ofSource, Lexeme.ofSource, String.toList_ofList]
  exact ⟨htokens, htrailing⟩

/-! ### Where a token is -/

theorem start_ofLexemes {token : Token}
    (h : (ofLexemes offset trivia lexemes).tokens = front ++ token :: back) :
    token.start + trivia.utf8ByteSize =
      offset + (written front).utf8ByteSize + token.trivia.utf8ByteSize := by
  induction lexemes generalizing offset trivia front with
  | nil => simp [ofLexemes] at h
  | cons lexeme rest ih =>
    by_cases hlexeme : lexeme.isTrivia
    · rw [ofLexemes_cons_trivia hlexeme] at h
      have := ih h
      simp only [String.utf8ByteSize_append] at this
      omega
    · rw [ofLexemes_cons_token hlexeme] at h
      cases front with
      | nil =>
        obtain ⟨rfl, -⟩ := List.cons.inj h
        simp
      | cons first front =>
        obtain ⟨rfl, hrest⟩ := List.cons.inj h
        have := ih hrest
        simp only [written_cons, Token.written, String.utf8ByteSize_append] at this ⊢
        simp only [String.utf8ByteSize_empty] at this
        omega

theorem start_eq {source : String} {token : Token}
    (h : (ofSource source).tokens = front ++ token :: back) :
    token.start = (written front).utf8ByteSize + token.trivia.utf8ByteSize := by
  simpa using start_ofLexemes h

theorem size_ofLexemes (offset : Nat) (trivia : String) (lexemes : List Lexeme) :
    (ofLexemes offset trivia lexemes).size =
      offset + (String.join (lexemes.map Lexeme.text)).utf8ByteSize := by
  induction lexemes generalizing offset trivia with
  | nil => simp [ofLexemes]
  | cons lexeme rest ih =>
    unfold ofLexemes
    split <;> simp [ih, Nat.add_assoc]

@[simp] theorem size_ofSource (source : String) : (ofSource source).size = source.utf8ByteSize := by
  rw [ofSource, size_ofLexemes, Lexeme.join_text_ofSource, Nat.zero_add]

theorem stop_le_size {source : String} {token : Token}
    (h : (ofSource source).tokens = front ++ token :: back) :
    token.stop ≤ source.utf8ByteSize := by
  have hwritten := congrArg String.utf8ByteSize (written_ofSource source)
  rw [h, written_append, written_cons, Token.written] at hwritten
  simp only [String.utf8ByteSize_append] at hwritten
  rw [Token.stop, start_eq h]
  omega

theorem text_ne_of_mem {source : String} {token : Token} (h : token ∈ (ofSource source).tokens) :
    token.text ≠ "" := by
  obtain ⟨lexeme, hmem, -, htext⟩ := exists_lexeme_of_mem h
  rw [htext]
  exact Lexeme.text_ne_of_mem_tile hmem

end TokenStream

end WebIdl
