import WebIdl.Proofs.Lexing.Prefix

/-!
# Where a lexeme ends

A lexeme is the same whatever text comes after it, as long as that text could not have belonged to
it. White space and a line comment go on up to the first character that is none of theirs, a block
comment and a string literal close themselves, and a number, an identifier or a punctuation mark
has no use for white space nor for the slash of a comment.

* `Pattern.after_eq_void`, `viable_append_of_unmentioned` — a pattern is not followed past a
  character that none of its classes has.
* `Opens`, `opens_of_munch` — how the text of a lexeme begins, by its kind.
* `longest_many`, `longest_blockBody_append`, `longest_stringBody_append` — the kinds that are told
  by how they begin, read from there on.
* `munch_append` — a lexeme is found again before any text that it ends before.
-/

namespace WebIdl.Lexeme

open Pattern

/-! ### Characters of a pattern -/

/-- Some class of the pattern has the character. -/
def Pattern.mentions (c : Char) : Pattern → Bool
  | .void | .empty => false
  | .one accepts => accepts c
  | .seq p q | .alt p q => p.mentions c || q.mentions c
  | .many p => p.mentions c

theorem Pattern.after_eq_void {p : Pattern} {c : Char} (h : p.mentions c = false) :
    p.after c = .void := by
  induction p with
  | void | empty => rfl
  | one accepts =>
    have hc : accepts c = false := h
    simp [after, hc]
  | seq p q ihp ihq =>
    simp only [mentions, Bool.or_eq_false_iff] at h
    simp [after, ihp h.1, ihq h.2, joined, either]
  | alt p q ihp ihq =>
    simp only [mentions, Bool.or_eq_false_iff] at h
    simp [after, ihp h.1, ihq h.2, either]
  | many p ih => simp [after, ih h, joined]

theorem Pattern.mentions_joined {p q : Pattern} {c : Char} (hp : p.mentions c = false)
    (hq : q.mentions c = false) : (joined p q).mentions c = false := by
  unfold joined
  split
  · rfl
  · exact hq
  · simp [mentions, hp, hq]

theorem Pattern.mentions_either {p q : Pattern} {c : Char} (hp : p.mentions c = false)
    (hq : q.mentions c = false) : (either p q).mentions c = false := by
  unfold either
  split
  · exact hq
  · exact hp
  · simp [mentions, hp, hq]

/-- Reading a character brings no other into a pattern. -/
theorem Pattern.mentions_after {p : Pattern} {c d : Char} (h : p.mentions c = false) :
    (p.after d).mentions c = false := by
  induction p with
  | void | empty => rfl
  | one accepts =>
    unfold after
    split <;> rfl
  | seq p q ihp ihq =>
    simp only [mentions, Bool.or_eq_false_iff] at h
    unfold after
    split
    · exact mentions_either (mentions_joined (ihp h.1) h.2) (ihq h.2)
    · exact mentions_joined (ihp h.1) h.2
  | alt p q ihp ihq =>
    simp only [mentions, Bool.or_eq_false_iff] at h
    exact mentions_either (ihp h.1) (ihq h.2)
  | many p ih => exact mentions_joined (ih h) h

/-! ### Following several patterns -/

variable {patterns : List (Kind × Pattern)} {s u : List Char} {c d : Char} {kind : Kind} {n : Nat}

theorem mem_follow {p : Pattern} : (kind, p) ∈ follow c patterns ↔
    ∃ q, (kind, q) ∈ patterns ∧ p = q.after c ∧ p.isVoid = false := by
  simp only [follow, List.mem_filter, List.mem_map, Prod.exists, Prod.mk.injEq,
    Bool.not_eq_true']
  constructor
  · rintro ⟨⟨_, q, hq, rfl, rfl⟩, hvoid⟩
    exact ⟨q, hq, rfl, hvoid⟩
  · rintro ⟨q, hq, rfl, hvoid⟩
    exact ⟨⟨_, q, hq, rfl, rfl⟩, hvoid⟩

theorem viable_append_of_unmentioned
    (h : ∀ kind p, (kind, p) ∈ patterns → p.mentions d = false) :
    viable patterns (s ++ d :: u) ≤ s.length := by
  induction s generalizing patterns with
  | nil =>
    have hfollow : follow d patterns = [] := by
      refine List.eq_nil_iff_forall_not_mem.mpr fun (kind, p) hp => ?_
      obtain ⟨q, hq, rfl, hvoid⟩ := mem_follow.mp hp
      simp [after_eq_void (h kind q hq), isVoid] at hvoid
    simp [viable, hfollow]
  | cons c s ih =>
    by_cases hfollow : follow c patterns = []
    · simp [viable, hfollow]
    · rw [List.cons_append, viable_cons hfollow]
      refine Nat.succ_le_succ (ih fun kind p hp => ?_)
      obtain ⟨q, hq, rfl, -⟩ := mem_follow.mp hp
      exact mentions_after (h kind q hq)

/-- What nothing can follow is found again before it. -/
theorem longest_append (h : viable patterns (s ++ u) ≤ s.length) :
    longest patterns (s ++ u) = longest patterns s := by
  induction s generalizing patterns with
  | nil =>
    cases u with
    | nil => rfl
    | cons c u =>
      by_cases hfollow : follow c patterns = []
      · exact longest_cons_of_nil hfollow
      · rw [List.nil_append, viable_cons hfollow] at h
        simp at h
  | cons c s ih =>
    by_cases hfollow : follow c patterns = []
    · rw [List.cons_append, longest_cons_of_nil hfollow, longest_cons_of_nil hfollow]
    · rw [List.cons_append, viable_cons hfollow] at h
      rw [List.cons_append, longest_cons hfollow, longest_cons hfollow,
        ih (Nat.le_of_succ_le_succ h)]

/-- The kind that is found is one that the first character leaves. -/
theorem exists_of_longest_cons (h : longest patterns (c :: s) = some (kind, n)) :
    ∃ p, (kind, p) ∈ follow c patterns := by
  by_cases hfollow : follow c patterns = []
  · simp [longest_cons_of_nil hfollow] at h
  · rw [longest_cons hfollow] at h
    split at h
    · rename_i hrec
      obtain ⟨rfl, -⟩ := Prod.mk.inj (Option.some.inj h)
      obtain ⟨-, p, hp, -⟩ := matches_of_longest hrec
      exact ⟨p, hp⟩
    · obtain ⟨k, hk, he⟩ := Option.map_eq_some_iff.mp h
      obtain ⟨rfl, -⟩ := Prod.mk.inj he
      obtain ⟨p, hp, -⟩ := exists_of_reached hk
      exact ⟨p, hp⟩

/-! ### How lexemes begin -/

/-- The white space of the language. -/
def blanks : List Char := ['\t', '\n', '\r', ' ']

def newlines : List Char := ['\n', '\r']

/-- The kinds of numbers, identifiers and punctuation. -/
def plainKinds : List Kind := [.integer, .decimal, .identifier, .ellipsis, .punctuation]

/-- What is left of a block comment after its opening. -/
def blockBody : Pattern :=
  chain [.many (.alt (noneOf ['*']) (.seq (plus (char '*')) (noneOf ['*', '/']))),
    plus (char '*'), char '/']

/-- What is left of a block comment after a star. -/
def blockStar : Pattern :=
  .alt
    (.seq
      (.seq (.seq (.many (char '*')) (noneOf ['*', '/']))
        (.many (.alt (noneOf ['*']) (.seq (plus (char '*')) (noneOf ['*', '/'])))))
      (chain [plus (char '*'), char '/']))
    (.seq (.many (char '*')) (char '/'))

/-- What is left of a string literal after the first quote. -/
def stringBody : Pattern := .seq (.many (noneOf ['"'])) (char '"')

/-- What a slash leaves: comments of both kinds. -/
def slashed : List (Kind × Pattern) :=
  [(.lineComment, .seq (literal ['/']) (.many (noneOf newlines))),
    (.blockComment, .seq (literal ['*']) blockBody)]

theorem follow_blank (h : c ∈ blanks) :
    follow c declared = [(.whitespace, .many (anyOf blanks))] := by
  simp only [blanks, List.mem_cons, List.not_mem_nil, or_false] at h
  rcases h with rfl | rfl | rfl | rfl <;> rfl

theorem follow_slash : follow '/' declared = slashed := rfl

theorem reached_slashed : reached slashed = none := rfl

theorem follow_quote : follow '"' declared = [(.string, stringBody)] := rfl

theorem follow_slashed_slash :
    follow '/' slashed = [(.lineComment, .many (noneOf newlines))] := rfl

theorem follow_slashed_star : follow '*' slashed = [(.blockComment, blockBody)] := rfl

theorem follow_slashed (hslash : c ≠ '/') (hstar : c ≠ '*') : follow c slashed = [] := by
  simp [follow, slashed, after, literal, char, joined, hslash, hstar, isVoid, nullable]

/-- Any other character leaves numbers, identifiers and punctuation, in which there is neither
white space nor a slash. -/
theorem of_mem_follow_plain {p : Pattern} (hc : c ∉ '"' :: '/' :: blanks)
    (h : (kind, p) ∈ follow c declared) :
    kind ∈ plainKinds ∧ ∀ d ∈ '/' :: blanks, p.mentions d = false := by
  obtain ⟨q, hq, rfl, hvoid⟩ := mem_follow.mp h
  simp only [blanks, List.mem_cons, List.not_mem_nil, or_false, not_or] at hc
  obtain ⟨hquote, hslash, hblank⟩ := hc
  simp only [declared, List.mem_cons, List.not_mem_nil, or_false, Prod.mk.injEq] at hq
  have hnot (hall : ('/' :: blanks).all (!q.mentions ·)) :
      ∀ d ∈ '/' :: blanks, (q.after c).mentions d = false :=
    fun d hd => mentions_after (by simpa using List.all_eq_true.mp hall d hd)
  rcases hq with ⟨rfl, rfl⟩ | ⟨rfl, rfl⟩ | ⟨rfl, rfl⟩ | ⟨rfl, rfl⟩ | ⟨rfl, rfl⟩ | ⟨rfl, rfl⟩ |
    ⟨rfl, rfl⟩ | ⟨rfl, rfl⟩ | ⟨rfl, rfl⟩
  · simp [whitespacePattern, after, plus, anyOf, hblank, joined, nullable, isVoid] at hvoid
  · simp [lineCommentPattern, after, literal, char, hslash, joined, nullable, isVoid] at hvoid
  · simp [blockCommentPattern, after, chain, literal, char, hslash, joined, nullable, isVoid]
      at hvoid
  · exact ⟨by decide, hnot (by decide)⟩
  · exact ⟨by decide, hnot (by decide)⟩
  · exact ⟨by decide, hnot (by decide)⟩
  · simp [stringPattern, after, chain, char, hquote, joined, nullable, isVoid] at hvoid
  · exact ⟨by decide, hnot (by decide)⟩
  · exact ⟨by decide, hnot (by decide)⟩

/-- How the text of a lexeme of this kind begins. -/
inductive Opens : Kind → List Char → Prop where
  | whitespace {c : Char} {s : List Char} (h : c ∈ blanks) : Opens .whitespace (c :: s)
  | lineComment {s : List Char} : Opens .lineComment ('/' :: '/' :: s)
  | blockComment {s : List Char} : Opens .blockComment ('/' :: '*' :: s)
  | string {s : List Char} : Opens .string ('"' :: s)
  | plain {kind : Kind} {c : Char} {s : List Char} (hkind : kind ∈ plainKinds)
      (h : c ∉ '"' :: '/' :: blanks) : Opens kind (c :: s)

theorem longest_of_munch (h : munch (c :: s) = (some kind, n)) :
    longest declared (c :: s) = some (kind, n + 1) := by
  unfold munch at h
  split at h
  · rename_i found m hfound
    obtain ⟨hkind, rfl⟩ := Prod.mk.inj h
    obtain rfl := Option.some.inj hkind
    have := (matches_of_longest hfound).1
    rw [hfound, Nat.sub_add_cancel this]
  · cases (Prod.mk.inj h).1

theorem munch_of_longest (h : longest declared (c :: s) = some (kind, n + 1)) :
    munch (c :: s) = (some kind, n) := by
  simp [munch, h]

theorem opens_of_munch (h : munch (c :: s) = (some kind, n)) : Opens kind (c :: s) := by
  have hlongest := longest_of_munch h
  obtain ⟨p, hp⟩ := exists_of_longest_cons hlongest
  by_cases hc : c ∈ '"' :: '/' :: blanks
  · rcases List.mem_cons.mp hc with rfl | hc
    · obtain ⟨rfl, -⟩ : kind = .string ∧ p = stringBody := by simpa [follow_quote] using hp
      exact .string
    rcases List.mem_cons.mp hc with rfl | hc
    · rw [longest_cons (by simp [follow_slash, slashed]), follow_slash] at hlongest
      split at hlongest
      · rename_i found m hfound
        obtain ⟨rfl, -⟩ := Prod.mk.inj (Option.some.inj hlongest)
        cases s with
        | nil => simp [longest] at hfound
        | cons d s =>
          obtain ⟨q, hq⟩ := exists_of_longest_cons hfound
          by_cases hslash : d = '/'
          · subst hslash
            obtain ⟨rfl, -⟩ : found = .lineComment ∧ _ := by simpa [follow_slashed_slash] using hq
            exact .lineComment
          · by_cases hstar : d = '*'
            · subst hstar
              obtain ⟨rfl, -⟩ : found = .blockComment ∧ _ := by
                simpa [follow_slashed_star] using hq
              exact .blockComment
            · simp [follow_slashed hslash hstar] at hq
      · simp [reached_slashed] at hlongest
    · obtain ⟨rfl, -⟩ : kind = .whitespace ∧ _ := by simpa [follow_blank hc] using hp
      exact .whitespace hc
  · exact .plain (of_mem_follow_plain hc hp).1 hc

/-! ### Kinds that are told by how they begin -/

theorem follow_many (accepts : Char → Bool) :
    follow c [(kind, .many (.one accepts))] =
      if accepts c then [(kind, .many (.one accepts))] else [] := by
  by_cases hc : accepts c <;> simp [follow, after, joined, isVoid, hc]

/-- Characters of one class are read as far as they go. -/
theorem longest_many (accepts : Char → Bool) (s : List Char) :
    longest [(kind, .many (.one accepts))] s =
      match (s.takeWhile accepts).length with
      | 0 => none
      | n + 1 => some (kind, n + 1) := by
  induction s with
  | nil => rfl
  | cons c s ih =>
    by_cases hc : accepts c
    · rw [longest_cons (by simp [follow_many, hc]), follow_many, if_pos hc, ih,
        List.takeWhile_cons, if_pos hc, List.length_cons]
      cases (s.takeWhile accepts).length <;> rfl
    · rw [longest_cons_of_nil (by simp [follow_many, hc]), List.takeWhile_cons, if_neg hc]
      rfl

theorem length_takeWhile_append {accepts : Char → Bool}
    (h : (s.takeWhile accepts).length < s.length ∨ ∀ d ∈ u.head?, accepts d = false) :
    ((s ++ u).takeWhile accepts).length = (s.takeWhile accepts).length := by
  rw [List.takeWhile_append]
  split
  · rename_i hall
    obtain hlt | hu := h
    · omega
    · have hnone : u.takeWhile accepts = [] := by
        cases u with
        | nil => rfl
        | cons d u => simp [hu d rfl]
      rw [hnone, List.append_nil, hall]
  · rfl

theorem munch_blank (h : c ∈ blanks) :
    munch (c :: s) = (some .whitespace, (s.takeWhile (blanks.contains ·)).length) := by
  refine munch_of_longest ?_
  rw [longest_cons (by simp [follow_blank h]), follow_blank h, anyOf, longest_many]
  cases (s.takeWhile (blanks.contains ·)).length <;> rfl

theorem munch_lineComment (s : List Char) :
    munch ('/' :: '/' :: s) =
      (some .lineComment, (s.takeWhile (!newlines.contains ·)).length + 1) := by
  refine munch_of_longest ?_
  rw [longest_cons (by simp [follow_slash, slashed]), follow_slash,
    longest_cons (by simp [follow_slashed_slash]), follow_slashed_slash, noneOf, longest_many]
  cases (s.takeWhile (!newlines.contains ·)).length <;> rfl

/-- What is left of a block comment or of a string literal, up to where it is closed. -/
inductive Closing : Pattern → Prop where
  | blockBody : Closing blockBody
  | blockStar : Closing blockStar
  | stringBody : Closing stringBody
  | closed : Closing .empty

theorem blockBody_after (h : c ≠ '*') : blockBody.after c = blockBody := by
  simp [blockBody, after, chain, plus, char, noneOf, joined, either, h, nullable]

theorem blockStar_after (hstar : c ≠ '*') (hslash : c ≠ '/') : blockStar.after c = blockBody := by
  simp [blockBody, blockStar, after, chain, plus, char, noneOf, joined, either, hstar, hslash,
    nullable]

theorem stringBody_after (h : c ≠ '"') : stringBody.after c = stringBody := by
  simp [stringBody, after, char, noneOf, joined, either, h, nullable]

theorem Closing.eq_empty {p : Pattern} (h : Closing p) (hnull : p.nullable) : p = .empty := by
  cases h with
  | blockBody | blockStar | stringBody => cases hnull
  | closed => rfl

theorem Closing.after {p : Pattern} (h : Closing p) (c : Char) :
    p.after c = .void ∨ Closing (p.after c) := by
  cases h with
  | blockBody =>
    by_cases hstar : c = '*'
    · subst hstar
      exact .inr .blockStar
    · rw [blockBody_after hstar]
      exact .inr .blockBody
  | blockStar =>
    by_cases hstar : c = '*'
    · subst hstar
      exact .inr .blockStar
    by_cases hslash : c = '/'
    · subst hslash
      exact .inr .closed
    · rw [blockStar_after hstar hslash]
      exact .inr .blockBody
  | stringBody =>
    by_cases hquote : c = '"'
    · subst hquote
      exact .inr .closed
    · rw [stringBody_after hquote]
      exact .inr .stringBody
  | closed => exact .inl rfl

theorem longest_empty (s : List Char) : longest [(kind, .empty)] s = none := by
  cases s with
  | nil => rfl
  | cons c s => exact longest_cons_of_nil rfl

/-- Once it is closed, nothing belongs to a comment or to a literal any more. -/
theorem Closing.longest_append {p : Pattern} (hp : Closing p) {found : Kind × Nat}
    (h : longest [(kind, p)] s = some found) : longest [(kind, p)] (s ++ u) = some found := by
  induction s generalizing p found with
  | nil => simp [longest] at h
  | cons c s ih =>
    have hfollow : follow c [(kind, p)] =
        if (p.after c).isVoid then [] else [(kind, p.after c)] := by
      by_cases hvoid : (p.after c).isVoid <;> simp [follow, hvoid]
    by_cases hvoid : (p.after c).isVoid
    · rw [longest_cons_of_nil (by simp [hfollow, hvoid])] at h
      cases h
    rw [if_neg hvoid] at hfollow
    rw [longest_cons (by simp [hfollow]), hfollow] at h
    rw [List.cons_append, longest_cons (by simp [hfollow]), hfollow]
    rcases hp.after c with heq | hafter
    · simp [heq, isVoid] at hvoid
    by_cases hnull : (p.after c).nullable
    · rw [hafter.eq_empty hnull, longest_empty] at h ⊢
      exact h
    · cases hrec : longest [(kind, p.after c)] s with
      | none => simp [hrec, reached, hnull] at h
      | some found =>
        rw [hrec] at h
        rw [ih hafter hrec]
        exact h

theorem reached_stringBody : reached [(.string, stringBody)] = none := rfl

theorem reached_blockBody : reached [(.blockComment, blockBody)] = none := rfl

theorem longest_string_append (h : longest declared ('"' :: s) = some (kind, n)) :
    longest declared ('"' :: (s ++ u)) = some (kind, n) := by
  rw [longest_cons (by simp [follow_quote]), follow_quote] at h ⊢
  cases hrec : longest [(.string, stringBody)] s with
  | none => simp [hrec, reached_stringBody] at h
  | some found =>
    rw [hrec] at h
    rw [Closing.stringBody.longest_append hrec]
    exact h

theorem longest_blockComment_append (h : longest declared ('/' :: '*' :: s) = some (kind, n)) :
    longest declared ('/' :: '*' :: (s ++ u)) = some (kind, n) := by
  rw [longest_cons (by simp [follow_slash, slashed]), follow_slash,
    longest_cons (by simp [follow_slashed_star]), follow_slashed_star] at h ⊢
  cases hrec : longest [(.blockComment, blockBody)] s with
  | none => simp [hrec, reached_blockBody, reached_slashed] at h
  | some found =>
    rw [hrec] at h
    rw [Closing.blockBody.longest_append hrec]
    exact h

/-! ### Lexemes that are found again -/

/-- A lexeme of this kind does not go on with this character. -/
def Kind.endsBefore : Kind → Char → Bool
  | .whitespace, c => !blanks.contains c
  | .lineComment, c => newlines.contains c
  | .blockComment, _ | .string, _ => true
  | .integer, c | .decimal, c | .identifier, c | .ellipsis, c | .punctuation, c =>
    ('/' :: blanks).contains c

/-- White space and comments. -/
def Kind.isTrivia (kind : Kind) : Bool := !(.string :: plainKinds).contains kind

/-- White space and comments that are not the whole text end within it. -/
theorem munch_append (h : munch (c :: s) = (some kind, n))
    (hends : kind.isTrivia ∧ n < s.length ∨ ∀ d ∈ u.head?, kind.endsBefore d) :
    munch (c :: (s ++ u)) = (some kind, n) := by
  generalize hcs : c :: s = cs at h
  have hopens : Opens kind cs := hcs ▸ opens_of_munch (hcs ▸ h)
  cases hopens with
  | @whitespace c' s' hc =>
    obtain ⟨rfl, rfl⟩ := List.cons.inj hcs
    rw [munch_blank hc] at h ⊢
    obtain ⟨-, rfl⟩ := Prod.mk.inj h
    rw [length_takeWhile_append]
    exact hends.imp And.right fun hu d hd => by simpa [Kind.endsBefore] using hu d hd
  | @lineComment s' =>
    obtain ⟨rfl, rfl⟩ := List.cons.inj hcs
    rw [munch_lineComment] at h
    obtain ⟨-, rfl⟩ := Prod.mk.inj h
    rw [List.cons_append, munch_lineComment, length_takeWhile_append]
    refine hends.imp (fun hn => ?_) fun hu d hd => ?_
    · simpa using hn.2
    · have hnewline : newlines.contains d := hu d hd
      simp only [hnewline, Bool.not_true]
  | @blockComment s' =>
    obtain ⟨rfl, rfl⟩ := List.cons.inj hcs
    exact munch_of_longest (longest_blockComment_append (longest_of_munch h))
  | @string s' =>
    obtain ⟨rfl, rfl⟩ := List.cons.inj hcs
    exact munch_of_longest (longest_string_append (longest_of_munch h))
  | @plain kind c' s' hkind hc =>
    obtain ⟨rfl, rfl⟩ := List.cons.inj hcs
    have hnot : kind.isTrivia = false := by simp [Kind.isTrivia, hkind]
    obtain hends | hends := hends
    · simp [hnot] at hends
    refine munch_of_longest ?_
    cases u with
    | nil => rw [List.append_nil, longest_of_munch h]
    | cons d u =>
      have hd : d ∈ '/' :: blanks := by
        have hall : ∀ kind ∈ plainKinds, kind.endsBefore d = ('/' :: blanks).contains d := by
          simp [plainKinds, Kind.endsBefore]
        simpa [hall kind hkind] using hends d rfl
      rw [← List.cons_append, Lexeme.longest_append, longest_of_munch h]
      have hviable := viable_append_of_unmentioned (s := s) (u := u)
        fun kind p hp => (of_mem_follow_plain hc hp).2 d hd
      by_cases hfollow : follow c declared = []
      · simp [viable, hfollow]
      · rw [List.cons_append, viable_cons hfollow]
        exact Nat.succ_le_succ hviable

end WebIdl.Lexeme
