import Mathlib.Data.List.Chain
import WebIdl.Proofs.Lexing.Ends

/-!
# Longest matches

A pattern less its first character matches the rest of all texts that the pattern matches with it, so
the scanner misses no match: what it takes is the longest prefix of a text that any pattern matches,
and where it takes nothing there is no such prefix.

* `Pattern.Matches.after`, `Pattern.nullable_of_matches` — following a pattern misses no text that it
  matches.
* `Lexeme.length_le_of_longest`, `Lexeme.longest_eq_none_iff` — the longest match, and none.
* `Lexeme.Begins` — what a lexeme is of the text that it begins; `Lexeme.begins_of_tile` says it of
  every lexeme of a text.
* `Lexeme.closes_of_matches` — a block comment ends where a star and a slash first follow its
  opening.
-/

namespace WebIdl.Lexeme

/-! ### Following a pattern -/

namespace Pattern

variable {p q : Pattern} {s t : List Char} {c : Char}

/-- Leaving out a part that adds nothing leaves out no text of a sequence. -/
theorem Matches.joined (hp : Matches p s) (hq : Matches q t) : Matches (joined p q) (s ++ t) := by
  unfold Pattern.joined
  split
  · cases hp
  · cases hp
    exact hq
  · exact .seq hp hq

theorem Matches.either_left (h : Matches p s) : Matches (either p q) s := by
  unfold Pattern.either
  split
  · cases h
  · exact h
  · exact .left h

theorem Matches.either_right (h : Matches q s) : Matches (either p q) s := by
  unfold Pattern.either
  split
  · exact h
  · cases h
  · exact .right h

/-- A pattern that matches the empty text shows it. -/
theorem nullable_of_matches (h : Matches p []) : p.nullable = true := by
  generalize hs : ([] : List Char) = s at h
  induction h with
  | empty | stop => rfl
  | one => cases hs
  | seq hp hq ihp ihq =>
    obtain ⟨rfl, rfl⟩ := List.append_eq_nil_iff.mp hs.symm
    simp [nullable, ihp rfl, ihq rfl]
  | left h ih => simp [nullable, ih hs]
  | right h ih => simp [nullable, ih hs]
  | more => rfl

/-- Reading the first character of a text that a pattern matches leaves a match of what is left of
the pattern. -/
theorem Matches.after (h : Matches p (c :: s)) : Matches (p.after c) s := by
  generalize hcs : c :: s = cs at h
  induction h generalizing s with
  | empty | stop => cases hcs
  | one hc =>
    obtain ⟨rfl, rfl⟩ := List.cons.inj hcs
    simpa [Pattern.after, hc] using Matches.empty
  | @seq p q s₁ s₂ hp hq ihp ihq =>
    unfold Pattern.after
    cases s₁ with
    | nil =>
      -- the first part reads nothing
      have hnull : p.nullable = true := nullable_of_matches hp
      rw [if_pos hnull]
      exact .either_right (ihq hcs)
    | cons d s₁ =>
      obtain ⟨rfl, rfl⟩ := List.cons.inj hcs
      have hjoined := (ihp rfl).joined hq
      split
      · exact .either_left hjoined
      · exact hjoined
  | left h ih => exact .either_left (ih hcs)
  | right h ih => exact .either_right (ih hcs)
  | @more p s₁ s₂ hs ht ihs iht =>
    cases s₁ with
    | nil => exact iht hcs
    | cons d s₁ =>
      obtain ⟨rfl, rfl⟩ := List.cons.inj hcs
      exact (ihs rfl).joined ht

/-- What shows that it matches nothing does match nothing. -/
theorem isVoid_eq_false_of_matches (h : Matches p s) : p.isVoid = false := by
  induction h with
  | empty | one | stop | more => rfl
  | seq hp hq ihp ihq => simp [isVoid, ihp, ihq]
  | left h ih => simp [isVoid, ih]
  | right h ih => simp [isVoid, ih]

end Pattern

/-! ### The longest match -/

variable {patterns : List (Kind × Pattern)} {cs s : List Char} {kind : Kind} {p : Pattern}

/-- A pattern that matches a text is followed past the first character of the text. -/
theorem mem_follow_of_matches {c : Char} (hp : (kind, p) ∈ patterns) (h : p.Matches (c :: s)) :
    (kind, p.after c) ∈ follow c patterns :=
  mem_follow.mpr ⟨p, hp, rfl, Pattern.isVoid_eq_false_of_matches h.after⟩

theorem reached_of_nullable (hp : (kind, p) ∈ patterns) (h : p.nullable = true) :
    (reached patterns).isSome = true := by
  rw [reached, Option.isSome_map, List.find?_isSome]
  exact ⟨_, hp, h⟩

/-- No prefix that a pattern matches is longer than what is taken. -/
theorem length_le_of_longest (hp : (kind, p) ∈ patterns) (hne : s ≠ []) (hs : s <+: cs)
    (h : p.Matches s) : ∃ found n, longest patterns cs = some (found, n) ∧ s.length ≤ n := by
  induction cs generalizing patterns p s with
  | nil => exact absurd (List.prefix_nil.mp hs) hne
  | cons c cs ih =>
    obtain ⟨d, s, rfl⟩ := List.exists_cons_of_ne_nil hne
    obtain ⟨rfl, hprefix⟩ := List.cons_prefix_cons.mp hs
    have hmem := mem_follow_of_matches hp h
    rw [longest_cons (List.ne_nil_of_mem hmem)]
    cases s with
    | nil =>
      -- the character is a match by itself, and perhaps there is a longer one
      have hnull := Pattern.nullable_of_matches h.after
      obtain ⟨k, hk⟩ := Option.isSome_iff_exists.mp (reached_of_nullable hmem hnull)
      cases longest (follow d patterns) cs with
      | some found => exact ⟨found.1, found.2 + 1, rfl, Nat.succ_le_succ (Nat.zero_le _)⟩
      | none => exact ⟨k, 1, by simp [hk], Nat.le_refl _⟩
    | cons e s =>
      obtain ⟨found, n, hfound, hn⟩ := ih hmem (List.cons_ne_nil e s) hprefix h.after
      exact ⟨found, n + 1, by simp [hfound], Nat.succ_le_succ hn⟩

/-- Nothing is taken where no pattern matches a prefix. -/
theorem longest_eq_none_iff :
    longest patterns cs = none ↔
      ∀ s, s <+: cs → s ≠ [] → ∀ entry ∈ patterns, ¬ entry.2.Matches s := by
  constructor
  · intro h s hs hne entry hentry hmatches
    obtain ⟨found, n, hfound, -⟩ := length_le_of_longest hentry hne hs hmatches
    rw [h] at hfound
    cases hfound
  · intro h
    by_contra hsome
    obtain ⟨⟨found, n⟩, hfound⟩ := Option.ne_none_iff_exists'.mp hsome
    obtain ⟨hpos, p, hp, hmatches⟩ := matches_of_longest hfound
    have hlength := le_length_of_longest hfound
    refine h _ (List.take_prefix n cs) ?_ _ hp hmatches
    intro hempty
    have hzero := congrArg List.length hempty
    rw [List.length_take, List.length_nil] at hzero
    omega

/-! ### Lexemes at the front of a text -/

/-- What a lexeme is of the text that it begins: its text matches a declared pattern of its kind, and
no longer prefix matches any; where no prefix matches any, it has no kind. -/
def Begins (lexeme : Lexeme) (rest : List Char) : Prop :=
  lexeme.text.toList <+: rest ∧
    match lexeme.kind with
    | some kind =>
      (∃ p, (kind, p) ∈ declared ∧ p.Matches lexeme.text.toList) ∧
        ∀ s, s <+: rest → lexeme.text.toList.length < s.length →
          ∀ entry ∈ declared, ¬ entry.2.Matches s
    | none => ∀ s, s <+: rest → s ≠ [] → ∀ entry ∈ declared, ¬ entry.2.Matches s

theorem begins_of_munch {c : Char} {kind : Option Kind} {more : Nat}
    (h : munch (c :: cs) = (kind, more)) :
    Begins ⟨kind, String.ofList (c :: cs.take more)⟩ (c :: cs) := by
  have hprefix : c :: cs.take more <+: c :: cs :=
    List.cons_prefix_cons.mpr ⟨rfl, List.take_prefix more cs⟩
  refine ⟨by simpa using hprefix, ?_⟩
  cases kind with
  | some kind =>
    have hlongest := longest_of_munch h
    obtain ⟨-, p, hp, hmatches⟩ := matches_of_longest hlongest
    have hlength := le_length_of_longest hlongest
    refine ⟨⟨p, hp, by simpa using hmatches⟩, ?_⟩
    intro s hs hlonger entry hentry hmatch
    have hne : s ≠ [] := by
      rintro rfl
      simp at hlonger
    obtain ⟨found, n, hfound, hle⟩ := length_le_of_longest hentry hne hs hmatch
    rw [hlongest] at hfound
    obtain ⟨-, rfl⟩ := Prod.mk.inj (Option.some.inj hfound)
    simp only [String.toList_ofList, List.length_cons, List.length_take] at hlonger hlength
    omega
  | none =>
    apply longest_eq_none_iff.mp
    unfold munch at h
    split at h
    · cases (Prod.mk.inj h).1
    · assumption

/-- **Every lexeme of a text is the longest match at its place, or stands where there is none.** -/
theorem begins_of_tile {lexeme : Lexeme} {front back : List Lexeme}
    (h : tile cs = front ++ lexeme :: back) :
    lexeme.Begins ((lexeme :: back).flatMap (·.text.toList)) := by
  obtain ⟨s, u, -, -, hback⟩ := exists_of_tile_eq_append h
  have hrest : (lexeme :: back).flatMap (·.text.toList) = u := by
    have hjoin := congrArg String.toList (join_text_tile u)
    rw [hback, String.toList_join, List.flatMap_map, String.toList_ofList] at hjoin
    exact hjoin
  rw [hrest]
  cases u with
  | nil => simp [tile] at hback
  | cons c u =>
    rw [tile] at hback
    obtain ⟨rfl, -⟩ := List.cons.inj hback
    exact begins_of_munch rfl

/-! ### Block comments -/

/-- No star is followed by a slash. -/
def Unclosed (s : List Char) : Prop := s.IsChain fun c d => ¬(c = '*' ∧ d = '/')

theorem not_unclosed {x y : List Char} : ¬ Unclosed (x ++ '*' :: '/' :: y) := by
  intro h
  have hback := (List.isChain_append.mp h).2.1
  exact (List.isChain_cons_cons.mp hback).1 ⟨rfl, rfl⟩

/-- Nothing that is put after the text closes it with its last character. -/
structure Unfinished (s : List Char) : Prop where
  unclosed : Unclosed s
  getLast_ne : s.getLast? ≠ some '*'

theorem Unfinished.append {t : List Char} (hs : Unfinished s) (ht : Unfinished t) :
    Unfinished (s ++ t) where
  unclosed := by
    refine List.isChain_append.mpr ⟨hs.unclosed, ht.unclosed, ?_⟩
    rintro c hc d - ⟨rfl, -⟩
    exact hs.getLast_ne hc
  getLast_ne := by
    intro hlast
    rw [List.getLast?_append] at hlast
    cases hback : t.getLast? with
    | none => exact hs.getLast_ne (by simpa [hback] using hlast)
    | some d => exact ht.getLast_ne (by simpa [hback] using hlast)

theorem eq_replicate_of_matches (h : (Pattern.many (Pattern.char '*')).Matches s) :
    s = List.replicate s.length '*' := by
  generalize hp : Pattern.many (Pattern.char '*') = p at h
  induction h with
  | empty | one | seq | left | right => cases hp
  | stop => rfl
  | more hs ht ihs iht =>
    obtain rfl := Pattern.many.inj hp
    cases hs with
    | one hc =>
      obtain rfl := beq_iff_eq.mp hc
      rw [List.singleton_append, iht rfl, List.length_cons, List.length_replicate,
        List.replicate_succ]

theorem exists_replicate_of_matches (h : (Pattern.plus (Pattern.char '*')).Matches s) :
    ∃ n, s = List.replicate (n + 1) '*' := by
  cases h with
  | @seq _ _ s t hs ht =>
    cases hs with
    | one hc =>
      obtain rfl := beq_iff_eq.mp hc
      exact ⟨t.length, by rw [eq_replicate_of_matches ht]; simp [List.replicate_succ]⟩

theorem unclosed_replicate (n : Nat) : Unclosed (List.replicate n '*') := by
  induction n with
  | zero => exact List.isChain_nil
  | succ n ih =>
    cases n with
    | zero => exact List.isChain_singleton _
    | succ n => exact List.isChain_cons_cons.mpr ⟨by simp, ih⟩

/-- The steps of which the inside of a block comment consists, up to the stars that close it. -/
def commentStep : Pattern :=
  .alt (Pattern.noneOf ['*']) (.seq (Pattern.plus (Pattern.char '*')) (Pattern.noneOf ['*', '/']))

theorem unfinished_of_matches_step (h : commentStep.Matches s) : Unfinished s := by
  cases h with
  | left h =>
    cases h with
    | @one _ c hc =>
      have hstar : c ≠ '*' := by simpa using hc
      exact ⟨List.isChain_singleton c, by simpa using hstar⟩
  | right h =>
    cases h with
    | @seq _ _ s t hs ht =>
      obtain ⟨n, rfl⟩ := exists_replicate_of_matches hs
      cases ht with
      | @one _ c hc =>
        obtain ⟨hstar, hslash⟩ : c ≠ '*' ∧ c ≠ '/' := by simpa using hc
        refine ⟨List.isChain_append.mpr ⟨unclosed_replicate _, List.isChain_singleton c, ?_⟩, ?_⟩
        · rintro d - e he ⟨-, rfl⟩
          simp [hslash] at he
        · simpa using hstar

theorem unfinished_of_matches (h : (Pattern.many commentStep).Matches s) : Unfinished s := by
  generalize hp : Pattern.many commentStep = p at h
  induction h with
  | empty | one | seq | left | right => cases hp
  | stop => exact ⟨List.isChain_nil, by simp⟩
  | more hs ht ihs iht =>
    obtain rfl := Pattern.many.inj hp
    exact (unfinished_of_matches_step hs).append (iht rfl)

theorem Unfinished.unclosed_stars (h : Unfinished s) (n : Nat) :
    Unclosed (s ++ List.replicate n '*') := by
  refine List.isChain_append.mpr ⟨h.unclosed, unclosed_replicate n, ?_⟩
  rintro c hc d - ⟨rfl, -⟩
  exact h.getLast_ne hc

/-- A block comment is its opening, an inside that nothing closes, stars, and a slash. -/
theorem exists_inside_of_matches (h : blockCommentPattern.Matches cs) :
    ∃ inside n, Unfinished inside ∧
      cs = "/*".toList ++ (inside ++ List.replicate (n + 1) '*') ++ ['/'] := by
  simp only [blockCommentPattern, Pattern.chain, Pattern.literal] at h
  cases h with
  | @seq _ _ opening cs hopening h =>
  cases h with
  | @seq _ _ inside cs hinside h =>
  cases h with
  | @seq _ _ stars closing hstars hclosing =>
  have hslash : closing = ['/'] := by
    cases hclosing with
    | one hc => simpa using hc
  have hstart : opening = ['/', '*'] := by
    cases hopening with
    | seq hfirst hrest =>
      cases hfirst with
      | one hc =>
        cases hrest with
        | seq hsecond hend =>
          cases hsecond with
          | one hd =>
            cases hend
            simp_all [Pattern.char]
  obtain ⟨n, rfl⟩ := exists_replicate_of_matches hstars
  exact ⟨inside, n, unfinished_of_matches hinside, by simp [hslash, hstart]⟩

/-- A block comment at the front of a text ends where a star and a slash first follow its opening. -/
def Closes (text : String) (rest : List Char) : Prop :=
  ∃ body after, text.toList = "/*".toList ++ body ++ "*/".toList ∧ rest = text.toList ++ after ∧
    ∀ x y, body ++ "*/".toList ++ after = x ++ "*/".toList ++ y → body.length ≤ x.length

theorem closes_of_matches {text : String} {after : List Char}
    (h : blockCommentPattern.Matches text.toList) : Closes text (text.toList ++ after) := by
  obtain ⟨inside, n, hinside, htext⟩ := exists_inside_of_matches h
  -- all but the slash at the end is unclosed
  have hopen := hinside.unclosed_stars (n + 1)
  have hstars : inside ++ List.replicate (n + 1) '*' = inside ++ List.replicate n '*' ++ ['*'] := by
    rw [List.replicate_succ', List.append_assoc]
  rw [hstars] at htext hopen
  refine ⟨inside ++ List.replicate n '*', after, by simp [htext], rfl, ?_⟩
  intro x y heq
  by_contra hshort
  have hle : (x ++ ['*', '/']).length ≤ (inside ++ List.replicate n '*' ++ ['*']).length := by
    simp only [List.length_append, List.length_cons, List.length_nil] at hshort ⊢
    omega
  have hwhole : inside ++ List.replicate n '*' ++ ['*'] <+: x ++ ['*', '/'] ++ y :=
    ⟨'/' :: after, by simpa using heq⟩
  obtain ⟨z, hz⟩ := List.prefix_of_prefix_length_le (List.prefix_append _ y) hwhole hle
  rw [← hz, List.append_assoc] at hopen
  exact not_unclosed hopen

end WebIdl.Lexeme
