import WebIdl.Proofs.Document.External
import WebIdl.Proofs.Lexing.Gaps
import WebIdl.Proofs.Markup.Comments

/-!
# Comments of a document

Where a comment stands in the source of a block, and whether there is an element around it in the
markup. Rendering goes by tokens and makes an element of the trivia before a token if it has a
comment in it. The name of a type is an exception: it becomes a link, and what stands between its
words is a part of the text of the link.

* `Rendering.comments_parse` — the elements around comments in a block are the gaps between its
  tokens that have comments in them, but for those between the words of a type name.
* `Document.comments_marked_iff` — a comment in a built block has an element around it exactly if it
  does not stand between the words of a type name, and all such elements have comments in them.
-/

namespace WebIdl

/-! ### The words of a source -/

theorem commentsBefore_eq {source : String} {front : List Token} {words : List Word}
    (h : (TokenStream.ofSource source).tokens = front ++ words.map (·.token)) :
    commentsBefore (written front).utf8ByteSize words =
      ((words.filter (!·.later)).map (·.token.gap)).filter (hasComment ·.1) := by
  induction words generalizing front with
  | nil => rfl
  | cons word words ih =>
    have hgap := TokenStream.gap_eq h
    have htokens : (TokenStream.ofSource source).tokens =
        (front ++ [word.token]) ++ words.map (·.token) := by
      simp [h]
    have hrest := ih htokens
    rw [written_append, String.utf8ByteSize_append] at hrest
    obtain ⟨token, later⟩ := word
    cases later with
    | true =>
      simpa [commentsBefore] using hrest
    | false =>
      have hfirst : commentAt (written front).utf8ByteSize token.trivia =
          [token.gap].filter (hasComment ·.1) := by
        rw [hgap]
        unfold commentAt
        cases hcomment : hasComment token.trivia <;> simp [hcomment]
      have hrest : commentsBefore ((written front).utf8ByteSize + token.written.utf8ByteSize)
          words = ((words.filter (!·.later)).map (·.token.gap)).filter (hasComment ·.1) := by
        simpa using hrest
      rw [commentsBefore_plain_cons, hfirst, hrest, ← List.filter_append]
      rfl

namespace Block

/-- The tokens of the definitions of a block, with what they are in type names. -/
def words (block : Block) : List Word := block.definitions.flatMap (·.words)

variable {source : String} {scope : Option String}

/-- Where no syntax error ends the reading, the definitions have all tokens of the source. -/
theorem map_token_words_parse (h : (parse source scope).hasErrors = false) :
    (parse source scope).words.map (·.token) = (TokenStream.ofSource source).tokens := by
  obtain ⟨rest, hrun, hstopped⟩ := completed_parse source scope
  have hstop : (parse source scope).stop = none := by simpa [hasErrors] using h
  rw [hstop] at hstopped
  obtain rfl : rest = [] := hstopped
  rw [words, map_token_flatMap Definition.map_token_words, hrun.tokens_eq, List.append_nil]

end Block

/-- Words and what trails them, in their places, with comments before them; later words are passed
over. -/
def commentGaps (words : List Word) (last : String × Text.Span) : List (String × Text.Span) :=
  ((words.filter (!·.later)).map (·.token.gap) ++ [last]).filter (hasComment ·.1)

/-- Two words are the same, or the gap before one ends where the gap before the other starts, or
earlier. -/
def Word.Apart (a b : Word) : Prop :=
  a = b ∨ a.token.gap.2.stop ≤ b.token.gap.2.start ∨ b.token.gap.2.stop ≤ a.token.gap.2.start

instance : Std.Symm Word.Apart where
  symm a b h := by
    rcases h with rfl | h | h
    · exact .inl rfl
    · exact .inr (.inr h)
    · exact .inr (.inl h)

section Gaps

variable {source : String} {words : List Word}
  (hwords : words.map (·.token) = (TokenStream.ofSource source).tokens)

include hwords

theorem gaps_eq_words : (TokenStream.ofSource source).gaps =
    words.map (·.token.gap) ++ [(TokenStream.ofSource source).lastGap] := by
  rw [TokenStream.gaps, ← hwords, List.map_map]
  rfl

theorem commentGaps_subset {gap : String × Text.Span}
    (h : gap ∈ commentGaps words (TokenStream.ofSource source).lastGap) :
    gap ∈ (TokenStream.ofSource source).gaps ∧ hasComment gap.1 = true := by
  obtain ⟨hgap, hcomment⟩ := List.mem_filter.mp h
  rw [gaps_eq_words hwords]
  refine ⟨?_, hcomment⟩
  rcases List.mem_append.mp hgap with hgap | hgap
  · obtain ⟨word, hword, rfl⟩ := List.mem_map.mp hgap
    exact List.mem_append_left _ (List.mem_map_of_mem (List.mem_filter.mp hword).1)
  · exact List.mem_append_right _ hgap

theorem apart_of_words {a b : Word} (ha : a ∈ words) (hb : b ∈ words) : a.Apart b := by
  have hpairwise := TokenStream.pairwise_gaps source
  rw [gaps_eq_words hwords, List.pairwise_append, List.pairwise_map] at hpairwise
  have hall : words.Pairwise Word.Apart := hpairwise.1.imp fun h => .inr (.inl h)
  exact hall.forall_of_forall (fun _ _ => .inl rfl) ha hb

theorem stop_le_lastGap {word : Word} (hword : word ∈ words) :
    word.token.gap.2.stop ≤ (TokenStream.ofSource source).lastGap.2.start := by
  have hpairwise := TokenStream.pairwise_gaps source
  rw [gaps_eq_words hwords, List.pairwise_append] at hpairwise
  exact hpairwise.2.2 _ (List.mem_map_of_mem hword) _ List.mem_cons_self

/-- A comment has an element around it unless it stands before a later word. -/
theorem exists_commentGap_iff {entry : Lexeme × Text.Span}
    (hentry : entry ∈ Lexeme.placed 0 (Lexeme.ofSource source))
    (hcomment : entry.1.isComment = true) :
    (∃ gap ∈ commentGaps words (TokenStream.ofSource source).lastGap, entry.2.Within gap.2) ↔
      ∀ word ∈ words, word.later = true → ¬entry.2.Within word.token.gap.2 := by
  have hlt := (Lexeme.tiling_ofSource source).start_lt_stop entry hentry
  constructor
  · rintro ⟨gap, hgap, hin⟩ word hword hlater hword'
    rcases List.mem_append.mp (List.mem_filter.mp hgap).1 with hgap | hgap
    · obtain ⟨other, hother, rfl⟩ := List.mem_map.mp hgap
      obtain ⟨hother, hfirst⟩ := List.mem_filter.mp hother
      rcases apart_of_words hwords hword hother with rfl | hbefore | hafter
      · rw [hlater] at hfirst
        cases hfirst
      · exact hword'.not_within_of_le hlt hbefore hin
      · exact hin.not_within_of_le hlt hafter hword'
    · obtain rfl := List.mem_singleton.mp hgap
      exact hword'.not_within_of_le hlt (stop_le_lastGap hwords hword) hin
  · intro hnone
    obtain ⟨gap, hgap, hhas, hin⟩ := TokenStream.exists_gap_of_comment hentry hcomment
    refine ⟨gap, List.mem_filter.mpr ⟨?_, hhas⟩, hin⟩
    rw [gaps_eq_words hwords] at hgap
    rcases List.mem_append.mp hgap with hgap | hgap
    · obtain ⟨word, hword, rfl⟩ := List.mem_map.mp hgap
      have hfirst : word.later = false := by
        cases hlater : word.later with
        | false => rfl
        | true => exact absurd hin (hnone word hword hlater)
      apply List.mem_append_left
      exact List.mem_map_of_mem (List.mem_filter.mpr ⟨hword, by rw [hfirst]; rfl⟩)
    · exact List.mem_append_right _ hgap

end Gaps

namespace Rendering

open Markup

variable (rendering : Rendering) {source : String} {scope : Option String}

/-- The elements around comments are those gaps of the source that have comments in them, but for
the gaps before later words. -/
theorem comments_parse (h : (Block.parse source scope).hasErrors = false) (index : Nat) :
    comments 0 (rendering.block (Block.parse source scope) index).children =
      commentGaps (Block.parse source scope).words (TokenStream.ofSource source).lastGap := by
  have htokens := Block.map_token_words_parse h
  have hwords := commentsBefore_eq ((List.nil_append _).trans htokens).symm
  have hplain : ∀ d ∈ (Block.parse source scope).definitions, ∀ m ∈ d.members, m.IsPlain :=
    fun d hd => Block.isPlain_parse hd
  have hremainder : (Block.parse source scope).remainder = none := by
    simpa [Block.remainder, Block.hasErrors] using h
  have hwritten : (Block.parse source scope).definitions.flatMap (·.tokens) =
      (TokenStream.ofSource source).tokens := by
    rw [← htokens, Block.words, map_token_flatMap Definition.map_token_words]
  have hlast : commentAt (written (TokenStream.ofSource source).tokens).utf8ByteSize
      (Block.parse source scope).trailing =
        [(TokenStream.ofSource source).lastGap].filter (hasComment ·.1) := by
    have htrailing : (Block.parse source scope).trailing =
        (TokenStream.ofSource source).trailing := rfl
    rw [htrailing, TokenStream.lastGap_ofSource, commentAt]
    cases hcomment : hasComment (TokenStream.ofSource source).trailing <;> simp [hcomment]
  rw [rendering.comments_block hplain hremainder, hwritten, hlast, commentGaps, List.filter_append,
    ← hwords]
  rfl

end Rendering

/-! ### Built documents -/

theorem Block.mem_words_iff {block : Block} {t : Token} :
    (∃ word ∈ block.words, word.later = true ∧ word.token = t) ↔
      ∃ d ∈ block.definitions, t ∈ d.laterWords := by
  simp only [Block.words, Definition.laterWords, List.mem_flatMap, List.mem_map, List.mem_filter]
  constructor
  · rintro ⟨word, ⟨d, hd, hword⟩, hlater, rfl⟩
    exact ⟨d, hd, word, ⟨hword, hlater⟩, rfl⟩
  · rintro ⟨d, hd, word, ⟨hword, hlater⟩, rfl⟩
    exact ⟨word, ⟨d, hd, hword⟩, hlater, rfl⟩

namespace Document

section Rendered

variable (resolver : Resolver) (plan : Anchor.Plan) (report : Lint.Report) (i : BlockInput)
  (index : Nat)

theorem comments_renderBlock (h : (Block.parse i.source i.id).hasErrors = false) :
    Markup.comments 0 (renderBlock resolver plan report i (Block.parse i.source i.id)
      index).markup.children =
        commentGaps (Block.parse i.source i.id).words (TokenStream.ofSource i.source).lastGap := by
  rw [children_renderBlock]
  exact Rendering.comments_parse _ h index

/-- The outermost element of a block is not one around a comment. -/
theorem exists_mem_comments_renderBlock (block : Block) {e : Element}
    (he : e ∈ (renderBlock resolver plan report i block index).markup.markup.elements)
    (hcomment : e.head.isComment = true) :
    ∃ c ∈ Markup.comments 0 (renderBlock resolver plan report i block index).markup.children,
      c.1 = e.textContent := by
  rw [Element.markup, Markup.elements] at he
  rcases List.mem_cons.mp he with rfl | he
  · have htag := tag_renderBlock resolver plan report i block index
    rw [StartTag.isComment_of_tag_ne (by simp [htag])] at hcomment
    cases hcomment
  · exact Markup.exists_mem_comments 0 he hcomment

end Rendered

/-- **Comments are marked up.** In a built block without syntax errors, a comment stands inside an
element around a comment exactly if it does not stand before a word of a type name other than the
first. All such elements, where they stand in the text, cover just what stands between two tokens or
after the last, and there is a comment in it. -/
theorem comments_marked_iff (settings : Settings) (provider : Option Xref.Provider)
    (input : DocumentInput) (index : Nat) (i : BlockInput) (built : RenderedBlock)
    (hi : input.blocks[index]? = some i)
    (hbuilt : (build settings provider input).blocks[index]? = some built)
    (h : (Block.parse i.source i.id).hasErrors = false) :
    let marked := Markup.comments 0 built.markup.children
    (∀ entry ∈ Lexeme.placed 0 (Lexeme.ofSource i.source), entry.1.isComment = true →
      ((∃ c ∈ marked, entry.2.Within c.2) ↔
        ∀ d ∈ (Block.parse i.source i.id).definitions, ∀ t ∈ d.laterWords,
          ¬entry.2.Within t.gap.2)) ∧
      (∀ c ∈ marked, c ∈ (TokenStream.ofSource i.source).gaps ∧
        ∃ entry ∈ Lexeme.placed 0 (Lexeme.ofSource i.source),
          entry.1.isComment = true ∧ entry.2.Within c.2) ∧
      ∀ e ∈ built.markup.markup.elements, e.head.isComment = true →
        ∃ c ∈ marked, c.1 = e.textContent := by
  intro marked
  rw [getElem?_blocks_build settings input hi provider] at hbuilt
  obtain rfl := Option.some.inj hbuilt
  have htokens := Block.map_token_words_parse h
  have hmarked : marked = commentGaps (Block.parse i.source i.id).words
      (TokenStream.ofSource i.source).lastGap := comments_renderBlock _ _ _ i index h
  constructor
  · intro entry hentry hcomment
    rw [hmarked, exists_commentGap_iff htokens hentry hcomment]
    constructor
    · intro hnone d hd t ht
      obtain ⟨word, hword, hlater, rfl⟩ := Block.mem_words_iff.mpr ⟨d, hd, ht⟩
      exact hnone word hword hlater
    · intro hnone word hword hlater
      obtain ⟨d, hd, ht⟩ := Block.mem_words_iff.mp ⟨word, hword, hlater, rfl⟩
      exact hnone d hd word.token ht
  constructor
  · intro c hc
    rw [hmarked] at hc
    obtain ⟨hgap, hcomment⟩ := commentGaps_subset htokens hc
    exact ⟨hgap, TokenStream.exists_comment_of_gap hgap hcomment⟩
  · intro e he hcomment
    exact exists_mem_comments_renderBlock _ _ _ i index _ he hcomment

/-- Comments after the words of a type name and after a definition. -/
def remarked : BlockInput := .ofSource "typedef unsigned long /* c */ T; // d"

/-- Both comments have elements around them. -/
theorem comments_marked_remarked :
    ∃ built, (build silent none (.block .empty remarked)).blocks[0]? = some built ∧
      ((Lexeme.placed 0 (Lexeme.ofSource remarked.source)).filter (·.1.isComment)).map
        (·.1.text) = ["/* c */", "// d"] ∧
      ∀ entry ∈ Lexeme.placed 0 (Lexeme.ofSource remarked.source), entry.1.isComment = true →
        ∃ c ∈ Markup.comments 0 built.markup.children, entry.2.Within c.2 := by
  have hsome : ((build silent none (.block .empty remarked)).blocks[0]?).isSome = true := by
    decide +kernel
  obtain ⟨built, hbuilt⟩ := Option.isSome_iff_exists.mp hsome
  have hread : (Block.parse remarked.source remarked.id).hasErrors = false := by decide +kernel
  have hapart : ∀ entry ∈ Lexeme.placed 0 (Lexeme.ofSource remarked.source),
      entry.1.isComment = true → ∀ d ∈ (Block.parse remarked.source remarked.id).definitions,
        ∀ t ∈ d.laterWords, ¬entry.2.Within t.gap.2 := by
    decide +kernel
  obtain ⟨hmarked, -⟩ :=
    comments_marked_iff silent none (.block .empty remarked) 0 remarked built rfl hbuilt hread
  exact ⟨built, hbuilt, by decide +kernel, fun entry hentry hcomment =>
    (hmarked entry hentry hcomment).mpr (hapart entry hentry hcomment)⟩

/-- A comment between the words of a type name. -/
def unremarked : BlockInput := .ofSource "typedef unsigned /* c */ long T;"

/-- There is no element around the comment. -/
theorem not_comments_marked :
    (Block.parse unremarked.source unremarked.id).hasErrors = false ∧
      ((Lexeme.placed 0 (Lexeme.ofSource unremarked.source)).filter (·.1.isComment)).map
        (·.1.text) = ["/* c */"] ∧
      (build silent none (.block .empty unremarked)).blocks.map
        (fun built => (built.markup.textContent, Markup.comments 0 built.markup.children)) =
          [(unremarked.source, [])] ∧
      ¬ ∀ entry ∈ Lexeme.placed 0 (Lexeme.ofSource unremarked.source), entry.1.isComment = true →
        ∃ built ∈ (build silent none (.block .empty unremarked)).blocks,
          ∃ c ∈ Markup.comments 0 built.markup.children, entry.2.Within c.2 := by
  decide +kernel

end Document

end WebIdl
