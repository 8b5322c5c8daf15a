import WebIdl.Proofs.Lexing.Tiling

/-!
# The gaps between tokens

The trivia of a token fills the gap before it, and what trails the last token fills the gap to the
end of the source. The white space and the comments of a source are all in these gaps.

* `TokenStream.gaps` — the trivia of a source in its places.
* `Lexeme.hasComment_textOf` — trivia is said to have a comment in it if a lexeme of it is one.
* `TokenStream.filled_gaps` — what a source has of lexemes that are trivia fills its gaps one by
  one.
* `TokenStream.exists_gap_of_comment`, `TokenStream.exists_comment_of_gap` — so comments stand in
  gaps that have a comment in them, and such gaps have comments in them.
* `TokenStream.pairwise_gaps` — no two gaps meet, unless they are empty.
-/

namespace WebIdl

/-- A stretch lies in another. -/
def Text.Span.Within (inner outer : Text.Span) : Prop :=
  outer.start ≤ inner.start ∧ inner.stop ≤ outer.stop

instance (inner outer : Text.Span) : Decidable (inner.Within outer) :=
  inferInstanceAs (Decidable (_ ∧ _))

/-- Something cannot lie both in a stretch and in one after it. -/
theorem Text.Span.Within.not_within_of_le {inner a b : Text.Span} (ha : inner.Within a)
    (hinner : inner.start < inner.stop) (hle : a.stop ≤ b.start) : ¬inner.Within b := by
  intro hb
  have hback : inner.stop ≤ inner.start := ha.2.trans (hle.trans hb.1)
  omega

namespace Lexeme

/-- A comment of either kind. -/
def isComment (lexeme : Lexeme) : Bool :=
  lexeme.kind == some .lineComment || lexeme.kind == some .blockComment

theorem isTrivia_of_isComment {lexeme : Lexeme} (h : lexeme.isComment = true) :
    lexeme.isTrivia = true := by
  rcases Bool.or_eq_true_iff.mp h with h | h
  · rw [isTrivia, eq_of_beq h]
  · rw [isTrivia, eq_of_beq h]

/-! ### Comments and white space -/

theorem accepts_of_matches_many {accepts : Char → Bool} {s : List Char}
    (h : (Pattern.many (.one accepts)).Matches s) : ∀ c ∈ s, accepts c = true := by
  generalize hp : Pattern.many (.one accepts) = p at h
  induction h with
  | stop => simp
  | more hs ht _ ih =>
    obtain rfl := Pattern.many.inj hp
    cases hs with
    | one hc =>
      intro d hd
      rcases List.mem_cons.mp hd with rfl | hd
      · exact hc
      · exact ih rfl d hd
  | empty | one | seq | left | right => cases hp

theorem exists_of_matches_literal {c : Char} {cs s : List Char} {p : Pattern}
    (h : (Pattern.seq (.literal (c :: cs)) p).Matches s) : ∃ rest, s = c :: rest := by
  cases h with
  | seq hliteral hrest =>
    cases hliteral with
    | seq hchar hcs =>
      cases hchar with
      | one hc =>
        obtain rfl := eq_of_beq hc
        exact ⟨_, rfl⟩

theorem isBlank_of_matches {s : List Char} (h : whitespacePattern.Matches s) :
    ∀ c ∈ s, Text.isBlank c = true := by
  have hblank (c : Char) (hc : ['\t', '\n', '\r', ' '].contains c = true) :
      Text.isBlank c = true := by
    revert hc
    simp only [List.contains_eq_mem, List.mem_cons, List.not_mem_nil, or_false, decide_eq_true_eq]
    rintro (rfl | rfl | rfl | rfl) <;> decide
  cases h with
  | seq hfirst hmore =>
    cases hfirst with
    | one hc =>
      intro d hd
      rcases List.mem_cons.mp hd with rfl | hd
      · exact hblank d hc
      · exact hblank d (accepts_of_matches_many hmore d hd)

variable {source : String} {lexeme : Lexeme}

/-- White space is blank, and a comment starts with a slash. -/
theorem hasComment_text (hmem : lexeme ∈ ofSource source) (htrivia : lexeme.isTrivia = true) :
    hasComment lexeme.text = lexeme.isComment := by
  cases hkind : lexeme.kind with
  | none => simp [isTrivia, hkind] at htrivia
  | some kind =>
    obtain ⟨p, hp, hmatches⟩ := matches_of_mem_tile hmem hkind
    have hslash (hstart : ∃ rest, lexeme.text.toList = '/' :: rest) :
        hasComment lexeme.text = true := by
      obtain ⟨rest, hrest⟩ := hstart
      rw [hasComment, hrest]
      rfl
    cases kind with
    | whitespace =>
      obtain rfl : p = whitespacePattern := by simpa [declared] using hp
      have hblank : Text.allBlank lexeme.text.toList = true :=
        List.all_eq_true.mpr (isBlank_of_matches hmatches)
      rw [hasComment, hblank, isComment, hkind]
      rfl
    | lineComment =>
      obtain rfl : p = lineCommentPattern := by simpa [declared] using hp
      rw [hslash (exists_of_matches_literal hmatches), isComment, hkind]
      rfl
    | blockComment =>
      obtain rfl : p = blockCommentPattern := by simpa [declared] using hp
      rw [hslash (exists_of_matches_literal hmatches), isComment, hkind]
      rfl
    | integer | decimal | identifier | string | ellipsis | punctuation =>
      simp [isTrivia, hkind] at htrivia

/-! ### Rows of lexemes -/

theorem map_fst_placed (offset : Nat) (lexemes : List Lexeme) :
    (placed offset lexemes).map (·.1) = lexemes := by
  induction lexemes generalizing offset with
  | nil => rfl
  | cons lexeme rest ih => simp [placed, ih]

theorem textOf_placed (offset : Nat) (lexemes : List Lexeme) :
    textOf (placed offset lexemes) = String.join (lexemes.map Lexeme.text) := by
  have hmap := congrArg (List.map Lexeme.text) (map_fst_placed offset lexemes)
  rw [List.map_map] at hmap
  exact congrArg String.join hmap

theorem placed_append (offset : Nat) (xs ys : List Lexeme) :
    placed offset (xs ++ ys) =
      placed offset xs ++ placed (offset + (String.join (xs.map Lexeme.text)).utf8ByteSize) ys := by
  induction xs generalizing offset with
  | nil => simp [placed]
  | cons x xs ih => simp [placed, ih, Nat.add_assoc]

theorem filter_placed {p : Lexeme → Bool} {lexemes : List Lexeme}
    (h : ∀ lexeme ∈ lexemes, p lexeme = true) (offset : Nat) :
    (placed offset lexemes).filter (fun entry => p entry.1) = placed offset lexemes := by
  apply List.filter_eq_self.mpr
  intro entry hentry
  have hmem : entry.1 ∈ (placed offset lexemes).map (·.1) := List.mem_map_of_mem hentry
  rw [map_fst_placed] at hmem
  exact h entry.1 hmem

theorem hasComment_append (s t : String) :
    hasComment (s ++ t) = (hasComment s || hasComment t) := by
  rw [hasComment, String.toList_append, Text.allBlank, List.all_append, Bool.not_and]
  rfl

/-- Trivia has a comment in it if a lexeme of it is one. -/
theorem hasComment_textOf {row : List (Lexeme × Text.Span)}
    (h : ∀ entry ∈ row, entry.1 ∈ ofSource source ∧ entry.1.isTrivia = true) :
    hasComment (textOf row) = row.any (·.1.isComment) := by
  induction row with
  | nil => rfl
  | cons entry row ih =>
    obtain ⟨hmem, htrivia⟩ := h entry List.mem_cons_self
    have ih := ih fun entry hentry => h entry (List.mem_cons_of_mem _ hentry)
    have hsplit : textOf (entry :: row) = entry.1.text ++ textOf row := by
      rw [textOf, List.map_cons, String.join_cons, textOf]
    rw [hsplit, hasComment_append, hasComment_text hmem htrivia, ih, List.any_cons]

end Lexeme

/-! ### Gaps -/

/-- The trivia of a token in its place. -/
def Token.gap (token : Token) : String × Text.Span :=
  (token.trivia, ⟨token.triviaStart, token.start⟩)

namespace TokenStream

/-- What trails the last token, in its place. -/
def lastGap (stream : TokenStream) : String × Text.Span :=
  (stream.trailing, ⟨stream.size - stream.trailing.utf8ByteSize, stream.size⟩)

/-- The trivia of all tokens in their places, and at the end what trails them. -/
def gaps (stream : TokenStream) : List (String × Text.Span) :=
  stream.tokens.map Token.gap ++ [stream.lastGap]

/-- Lexemes in their places are all that a gap consists of. -/
structure Fills (row : List (Lexeme × Text.Span)) (gap : String × Text.Span) : Prop where
  text : gap.1 = Lexeme.textOf row
  placed : row = Lexeme.placed gap.2.start (row.map (·.1))
  stop : gap.2.stop = gap.2.start + gap.1.utf8ByteSize

theorem fills_placed {start offset : Nat} {before : List Lexeme} {trivia : String}
    (htrivia : trivia = String.join (before.map Lexeme.text))
    (hoffset : offset = start + trivia.utf8ByteSize) :
    Fills (Lexeme.placed start before) (trivia, ⟨offset - trivia.utf8ByteSize, offset⟩) := by
  have hstart : offset - trivia.utf8ByteSize = start := by omega
  rw [hstart]
  refine ⟨?_, ?_, hoffset⟩
  · rw [Lexeme.textOf_placed, htrivia]
  · rw [Lexeme.map_fst_placed]

/-- A row of lexemes for each gap, which fills it. -/
structure Filled (rows : List (List (Lexeme × Text.Span) × (String × Text.Span)))
    (lexemes : List (Lexeme × Text.Span)) (gaps : List (String × Text.Span)) : Prop where
  gaps : rows.map (·.2) = gaps
  lexemes : rows.flatMap (·.1) = lexemes.filter (·.1.isTrivia)
  fills : ∀ row ∈ rows, Fills row.1 row.2

/-- The lexemes that have been held back fill the first gap; those that follow fill the others. -/
theorem filled_ofLexemes {start offset : Nat} {before : List Lexeme} {trivia : String}
    (hbefore : ∀ lexeme ∈ before, lexeme.isTrivia = true)
    (htrivia : trivia = String.join (before.map Lexeme.text))
    (hoffset : offset = start + trivia.utf8ByteSize) (lexemes : List Lexeme) :
    ∃ rows, Filled rows (Lexeme.placed start (before ++ lexemes))
      (ofLexemes offset trivia lexemes).gaps := by
  have hfills := fills_placed htrivia hoffset
  have hkept := Lexeme.filter_placed hbefore start
  induction lexemes generalizing start offset before trivia with
  | nil =>
    refine ⟨[(Lexeme.placed start before, (trivia, ⟨offset - trivia.utf8ByteSize, offset⟩))],
      rfl, ?_, ?_⟩
    · simpa using hkept.symm
    · simpa using hfills
  | cons lexeme rest ih =>
    cases hlexeme : lexeme.isTrivia with
    | true =>
      -- one more lexeme is held back
      have hmore : ∀ l ∈ before ++ [lexeme], l.isTrivia = true := by
        simpa [hlexeme, or_imp, forall_and] using hbefore
      have htext : trivia ++ lexeme.text = String.join ((before ++ [lexeme]).map Lexeme.text) := by
        simp [htrivia]
      have hnext : offset + lexeme.text.utf8ByteSize =
          start + (trivia ++ lexeme.text).utf8ByteSize := by
        rw [String.utf8ByteSize_append]
        omega
      obtain ⟨rows, hrows⟩ := ih hmore htext hnext (fills_placed htext hnext)
        (Lexeme.filter_placed hmore start)
      rw [ofLexemes_cons_trivia hlexeme]
      exact ⟨rows, by simpa using hrows⟩
    | false =>
      -- the gap ends, and the next one starts after the lexeme
      have hnone : ∀ l ∈ ([] : List Lexeme), l.isTrivia = true := by simp
      obtain ⟨rows, hgaps, hlexemes, hall⟩ := @ih (offset + lexeme.text.utf8ByteSize) _ [] ""
        hnone rfl rfl (fills_placed rfl rfl) (Lexeme.filter_placed hnone _)
      rw [ofLexemes_cons_token (by simp [hlexeme])]
      refine ⟨(Lexeme.placed start before,
        (trivia, ⟨offset - trivia.utf8ByteSize, offset⟩)) :: rows, ?_, ?_, ?_⟩
      · rw [List.map_cons, hgaps]
        rfl
      · rw [Lexeme.placed_append, List.filter_append, hkept, List.flatMap_cons, hlexemes, ← htrivia,
          ← hoffset, Lexeme.placed, List.filter_cons_of_neg (by simp [hlexeme]), List.nil_append]
      · intro row hrow
        rcases List.mem_cons.mp hrow with rfl | hrow
        · exact hfills
        · exact hall row hrow

/-- What a source has of white space and comments fills its gaps, one after the other. -/
theorem filled_gaps (source : String) :
    ∃ rows, Filled rows (Lexeme.placed 0 (Lexeme.ofSource source)) (ofSource source).gaps := by
  have hnone : ∀ l ∈ ([] : List Lexeme), l.isTrivia = true := by simp
  exact filled_ofLexemes hnone rfl rfl (Lexeme.ofSource source)

/-! ### Comments in gaps -/

theorem Fills.within {row : List (Lexeme × Text.Span)} {gap : String × Text.Span}
    (h : Fills row gap) {entry : Lexeme × Text.Span} (hentry : entry ∈ row) :
    entry.2.Within gap.2 := by
  have hplaced := h.placed
  rw [hplaced] at hentry
  obtain ⟨front, back, hlexemes, hstart, hstop⟩ := Lexeme.exists_of_mem_placed hentry
  have htext : gap.1 = String.join ((row.map (·.1)).map Lexeme.text) := by
    rw [h.text, hplaced, Lexeme.textOf_placed, Lexeme.map_fst_placed]
  have hsize := congrArg String.utf8ByteSize htext
  rw [hlexemes, List.map_append, List.map_cons, String.join_append, String.join_cons] at hsize
  simp only [String.utf8ByteSize_append] at hsize
  have hend := h.stop
  constructor
  · omega
  · omega

theorem Filled.hasComment {source : String} {gaps : List (String × Text.Span)}
    {rows : List (List (Lexeme × Text.Span) × (String × Text.Span))}
    (h : Filled rows (Lexeme.placed 0 (Lexeme.ofSource source)) gaps)
    {row : List (Lexeme × Text.Span)} {gap : String × Text.Span} (hrow : (row, gap) ∈ rows) :
    hasComment gap.1 = row.any (·.1.isComment) := by
  have hfills : gap.1 = Lexeme.textOf row := (h.fills _ hrow).text
  have htrivia : ∀ entry ∈ row, entry.1 ∈ Lexeme.ofSource source ∧ entry.1.isTrivia = true := by
    intro entry hentry
    have hmem : entry ∈ rows.flatMap (·.1) := List.mem_flatMap.mpr ⟨_, hrow, hentry⟩
    rw [h.lexemes] at hmem
    obtain ⟨hplaced, htrivia⟩ := List.mem_filter.mp hmem
    have hlexeme : entry.1 ∈ (Lexeme.placed 0 (Lexeme.ofSource source)).map (·.1) :=
      List.mem_map_of_mem hplaced
    rw [Lexeme.map_fst_placed] at hlexeme
    exact ⟨hlexeme, htrivia⟩
  rw [hfills, Lexeme.hasComment_textOf htrivia]

variable {source : String}

/-- A comment stands in a gap. -/
theorem exists_gap_of_comment {entry : Lexeme × Text.Span}
    (hentry : entry ∈ Lexeme.placed 0 (Lexeme.ofSource source))
    (hcomment : entry.1.isComment = true) :
    ∃ gap ∈ (ofSource source).gaps, hasComment gap.1 = true ∧ entry.2.Within gap.2 := by
  obtain ⟨rows, hrows⟩ := filled_gaps source
  have hmem : entry ∈ rows.flatMap (·.1) := by
    rw [hrows.lexemes]
    exact List.mem_filter.mpr ⟨hentry, Lexeme.isTrivia_of_isComment hcomment⟩
  obtain ⟨⟨row, gap⟩, hrow, hin⟩ := List.mem_flatMap.mp hmem
  refine ⟨gap, ?_, ?_, (hrows.fills _ hrow).within hin⟩
  · rw [← hrows.gaps]
    exact List.mem_map_of_mem hrow
  · rw [hrows.hasComment hrow]
    exact List.any_eq_true.mpr ⟨entry, hin, hcomment⟩

/-- A gap that has a comment in it has one as a lexeme. -/
theorem exists_comment_of_gap {gap : String × Text.Span} (hgap : gap ∈ (ofSource source).gaps)
    (hcomment : hasComment gap.1 = true) :
    ∃ entry ∈ Lexeme.placed 0 (Lexeme.ofSource source),
      entry.1.isComment = true ∧ entry.2.Within gap.2 := by
  obtain ⟨rows, hrows⟩ := filled_gaps source
  rw [← hrows.gaps] at hgap
  obtain ⟨⟨row, gap⟩, hrow, rfl⟩ := List.mem_map.mp hgap
  rw [hrows.hasComment hrow] at hcomment
  obtain ⟨entry, hin, hcomment⟩ := List.any_eq_true.mp hcomment
  have hmem : entry ∈ rows.flatMap (·.1) := List.mem_flatMap.mpr ⟨_, hrow, hin⟩
  rw [hrows.lexemes] at hmem
  exact ⟨entry, (List.mem_filter.mp hmem).1, hcomment, (hrows.fills _ hrow).within hin⟩

/-! ### The order of gaps -/

/-- A gap starts where what is written before it ends. -/
theorem gap_eq {token : Token} {front back : List Token}
    (h : (ofSource source).tokens = front ++ token :: back) :
    token.gap = (token.trivia, ⟨(written front).utf8ByteSize,
      (written front).utf8ByteSize + token.trivia.utf8ByteSize⟩) := by
  have hstart := start_eq h
  rw [Token.gap, Token.triviaStart, hstart, Nat.add_sub_cancel]

theorem lastGap_ofSource (source : String) :
    (ofSource source).lastGap = ((ofSource source).trailing,
      ⟨(written (ofSource source).tokens).utf8ByteSize,
        (written (ofSource source).tokens).utf8ByteSize +
          (ofSource source).trailing.utf8ByteSize⟩) := by
  have hsize := congrArg String.utf8ByteSize (written_ofSource source)
  rw [String.utf8ByteSize_append] at hsize
  rw [lastGap, size_ofSource, ← hsize, Nat.add_sub_cancel]

/-- The gaps from a token on follow each other, after what is written before it. -/
theorem pairwise_gaps_of_eq {front back : List Token}
    (h : (ofSource source).tokens = front ++ back) :
    (back.map Token.gap ++ [(ofSource source).lastGap]).Pairwise
        (fun a b => a.2.stop ≤ b.2.start) ∧
      ∀ gap ∈ back.map Token.gap ++ [(ofSource source).lastGap],
        (written front).utf8ByteSize ≤ gap.2.start := by
  induction back generalizing front with
  | nil =>
    rw [List.append_nil] at h
    simp [lastGap_ofSource, h]
  | cons token back ih =>
    have hnext : (ofSource source).tokens = (front ++ [token]) ++ back := by simp [h]
    obtain ⟨hpairwise, hall⟩ := ih hnext
    have hgap := gap_eq h
    have hafter : ∀ gap ∈ back.map Token.gap ++ [(ofSource source).lastGap],
        token.gap.2.stop ≤ gap.2.start := by
      intro gap hmem
      have hstart := hall gap hmem
      simp only [written_append, written_cons, written_nil, String.utf8ByteSize_append,
        Token.written] at hstart
      rw [hgap]
      dsimp only
      omega
    refine ⟨List.pairwise_cons.mpr ⟨hafter, hpairwise⟩, ?_⟩
    intro gap hmem
    rcases List.mem_cons.mp hmem with rfl | hmem
    · rw [hgap]
    · have hstart := hall gap hmem
      simp only [written_append, String.utf8ByteSize_append] at hstart
      omega

/-- Each gap ends before the next one starts. -/
theorem pairwise_gaps (source : String) :
    (ofSource source).gaps.Pairwise fun a b => a.2.stop ≤ b.2.start :=
  (pairwise_gaps_of_eq (List.nil_append _).symm).1

end TokenStream

end WebIdl
