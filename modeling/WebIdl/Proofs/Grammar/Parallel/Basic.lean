import WebIdl.Proofs.Grammar.Reads
import WebIdl.Proofs.Grammar.Rule
import WebIdl.Proofs.Syntax.Map

/-!
# Rules on tokens that look the same

A rule may look at the kind and the text of the tokens ahead, and no further than two of them. So
where it succeeds, it succeeds with the same outcome on any other tokens that look the same as those
it read and as the few it looked at beyond them.

* `Rule.Parallel` — that one rule does on such tokens what another does, as far as some function of
  the tokens can tell.
* `Parallel.choice` — a step that is decided by the next tokens; the basic rules are such steps.
* `Parallel.bind` and the lemmas after it — a rule is followed along its steps.
-/

namespace WebIdl.Grammar.Rule

variable {α β γ δ : Type} {f : Token → Token} {n n' k l : Nat}

/-- The rule `x`, on at most `n` tokens, fails at one of the tokens it was given or past the last,
and where it succeeds, it reads `least` tokens or more, and `y` has an outcome that `m` takes to the
same thing on any tokens, at most `n'`, that `f` takes to the same as those read and as the next
`look` after them. -/
structure Parallel (f : Token → Token) (n n' least look : Nat) (m : α → γ) (x y : Rule α) :
    Prop where
  stops : ∀ ⦃before failure⦄, before.length ≤ n → x before = .error failure →
    failure.rest <:+ before
  reads : ∀ ⦃before a rest⦄, before.length ≤ n → x before = .ok (a, rest) →
    ∃ read, before = read ++ rest ∧ least ≤ read.length ∧
      ∀ ⦃read' rest'⦄, read.map f = read'.map f →
        (rest.map f).take look = (rest'.map f).take look → (read' ++ rest').length ≤ n' →
        ∃ b, y (read' ++ rest') = .ok (b, rest') ∧ m a = m b

/-- Tokens that look the same as far as some were read and some looked at look the same over the
first `j` of them, if these are no more. -/
theorem take_map_append {read read' rest rest' : List Token} {j : Nat}
    (hread : read.map f = read'.map f) (hrest : (rest.map f).take l = (rest'.map f).take l)
    (hj : j ≤ read.length + l) :
    ((read ++ rest).map f).take j = ((read' ++ rest').map f).take j := by
  have hlength : read.length = read'.length := by simpa using congrArg List.length hread
  have hshort : ((rest.map f).take l).take (j - read.length) =
      ((rest'.map f).take l).take (j - read.length) := by rw [hrest]
  rw [List.take_take, List.take_take, Nat.min_eq_left (by omega)] at hshort
  rw [List.map_append, List.map_append, List.take_append, List.take_append, hread,
    List.length_map, ← hlength, hshort]

namespace Parallel

variable {m : α → γ} {m' : β → δ} {x y z : Rule α} {g g' : α → Rule β}

/-! ### Steps -/

theorem mono {p p' k₁ l₁ : Nat} (h : Parallel f p p' k₁ l₁ m x y)
    (hle : (n ≤ p ∧ n' ≤ p') ∧ k ≤ k₁ ∧ l₁ ≤ l) : Parallel f n n' k l m x y where
  stops before failure hn hfail := h.stops (by omega) hfail
  reads before a rest hn hok := by
    obtain ⟨read, hbefore, hleast, hsame⟩ := h.reads (by omega) hok
    refine ⟨read, hbefore, by omega, fun read' rest' hread hrest hn' => ?_⟩
    have hrest : (rest.map f).take l₁ = (rest'.map f).take l₁ := by
      have := congrArg (List.take l₁) hrest
      rwa [List.take_take, List.take_take, Nat.min_eq_left (by omega)] at this
    exact hsame hread hrest (by omega)

/-- On fewer tokens. -/
theorem shrink {p p' : Nat} (h : Parallel f p p' k l m x y) (hle : n ≤ p ∧ n' ≤ p') :
    Parallel f n n' k l m x y :=
  h.mono ⟨hle, Nat.le_refl _, Nat.le_refl _⟩

/-- Reading less and looking further is asked for less. -/
theorem weaken {k₁ l₁ : Nat} (h : Parallel f n n' k₁ l₁ m x y) (hk : k ≤ k₁) (hl : l₁ ≤ l) :
    Parallel f n n' k l m x y :=
  h.mono ⟨⟨Nat.le_refl _, Nat.le_refl _⟩, hk, hl⟩

/-- To show of a rule that it reads some tokens, it may be shown that it reads more. -/
theorem atLeast (k₁ : Nat) (hk : k ≤ k₁) (h : Parallel f n n' k₁ l m x y) :
    Parallel f n n' k l m x y :=
  h.weaken hk (Nat.le_refl _)

theorem fail {cause : Cause} : Parallel f n n' k l m (Rule.fail cause) y where
  stops before failure _ hfail := by
    cases hfail
    exact List.suffix_rfl
  reads before a rest _ hok := by cases hok

theorem pure {a b : α} (h : m a = m b) :
    Parallel f n n' 0 l m (Pure.pure a : Rule α) (Pure.pure b) where
  stops before failure _ hfail := by cases hfail
  reads before c rest _ hok := by
    obtain ⟨rfl, rfl⟩ := Prod.mk.inj (Except.ok.inj hok)
    refine ⟨[], rfl, Nat.zero_le _, fun read' rest' hread _ _ => ⟨b, ?_, h⟩⟩
    obtain rfl : read' = [] := by simpa using hread.symm
    rfl

/-- What the second step reads, or looks at, has to cover what the first one looked at. -/
theorem bind {k₁ l₁ : Nat} (hx : Parallel f n n' k₁ l₁ m x y) (hlook : l₁ ≤ (k - k₁) + l)
    (hg : ∀ a b, m a = m b → Parallel f (n - k₁) (n' - k₁) (k - k₁) l m' (g a) (g' b)) :
    Parallel f n n' k l m' (x >>= g) (y >>= g') where
  stops before failure hn hfail := by
    rcases bind_eq_error.mp hfail with hfirst | ⟨a, between, ha, hsecond⟩
    · exact hx.stops hn hfirst
    · obtain ⟨read, rfl, hleast, -⟩ := hx.reads hn ha
      rw [List.length_append] at hn
      exact ((hg a a rfl).stops (by omega) hsecond).trans (List.suffix_append ..)
  reads before b rest hn hok := by
    obtain ⟨a, between, ha, hb⟩ := bind_eq_ok_iff.mp hok
    obtain ⟨read, rfl, hleast, hsame⟩ := hx.reads hn ha
    rw [List.length_append] at hn
    obtain ⟨more, rfl, hmore, -⟩ := (hg a a rfl).reads (by omega) hb
    refine ⟨read ++ more, (List.append_assoc ..).symm, by simp only [List.length_append]; omega,
      fun all rest' hall hrest hn' => ?_⟩
    -- the other tokens are cut where the first step ended on the given ones
    obtain ⟨read', more', rfl, hread, hmore'⟩ := List.map_eq_append_iff.mp
      (hall.symm.trans List.map_append)
    rw [List.append_assoc] at hn' ⊢
    have hbetween := take_map_append (j := l₁) hmore'.symm hrest (by omega)
    obtain ⟨a', ha', hma⟩ := hsame hread.symm hbetween hn'
    have hlength : read.length = read'.length := by simpa using congrArg List.length hread.symm
    rw [List.length_append] at hn'
    obtain ⟨more₂, hsplit, -, hsame'⟩ := (hg a a' hma).reads (by omega) hb
    obtain rfl := List.append_cancel_right hsplit
    obtain ⟨b', hb', hmb⟩ := hsame' hmore'.symm hrest (by omega)
    exact ⟨b', (bind_of_ok ha').trans hb', hmb⟩

theorem map {h h' : α → β} (hx : Parallel f n n' k l m x y)
    (hh : ∀ a b, m a = m b → m' (h a) = m' (h' b)) :
    Parallel f n n' k l m' (h <$> x) (h' <$> y) := by
  rw [map_eq_pure_bind, map_eq_pure_bind]
  refine hx.bind (by omega) fun a b hab => ?_
  rw [Nat.sub_self]
  exact .pure (hh a b hab)

/-- A step that never fails and that the next `j` tokens decide. What it reads is known to the step
after it, which may need it to bound what is left. -/
theorem choice {j : Nat} (hlook : j ≤ k + l)
    (hx : ∀ before before', (before.map f).take j = (before'.map f).take j →
      ∃ a b read read' rest rest', (before = read ++ rest ∧ x before = .ok (a, rest)) ∧
        (before' = read' ++ rest' ∧ y before' = .ok (b, rest')) ∧ read.map f = read'.map f ∧
        Parallel f (n - read.length) (n' - read.length) (k - read.length) l m' (g a) (g' b)) :
    Parallel f n n' k l m' (x >>= g) (y >>= g') where
  stops before failure hn hfail := by
    obtain ⟨a, b, read, read', rest, rest', ⟨rfl, ha⟩, -, -, hg⟩ := hx before before rfl
    rw [bind_of_ok ha] at hfail
    rw [List.length_append] at hn
    exact (hg.stops (by omega) hfail).trans (List.suffix_append ..)
  reads before c rest hn hok := by
    obtain ⟨a, _, read, _, between, _, ⟨rfl, ha⟩, -, -, hg⟩ := hx before before rfl
    rw [bind_of_ok ha] at hok
    rw [List.length_append] at hn
    obtain ⟨more, rfl, hmore, -⟩ := hg.reads (by omega) hok
    refine ⟨read ++ more, (List.append_assoc ..).symm, by simp only [List.length_append]; omega,
      fun all rest' hall hrest hn' => ?_⟩
    have hahead := take_map_append (j := j) hall hrest
      (by simp only [List.length_append]; omega)
    rw [List.append_assoc] at hahead
    obtain ⟨a₂, b, read₂, read', between₂, between', ⟨hsplit, ha₂⟩, ⟨hsplit', hb⟩, hread, hg⟩ :=
      hx _ _ hahead
    obtain ⟨rfl, rfl⟩ := Prod.mk.inj (Except.ok.inj (ha.symm.trans ha₂))
    obtain rfl := List.append_cancel_right hsplit
    -- what the step read of the other tokens is the front of what looks like the tokens read
    obtain ⟨front, more', rfl, hfront, hmore'⟩ := List.map_eq_append_iff.mp
      (hall.symm.trans List.map_append)
    rw [List.append_assoc] at hsplit' hn' hb ⊢
    have hlength : front.length = read'.length := by
      simpa using congrArg List.length (hfront.trans hread)
    obtain ⟨rfl, rfl⟩ := List.append_inj hsplit' hlength
    have hlength' : read.length = front.length := by simpa using congrArg List.length hread
    rw [List.length_append] at hn'
    obtain ⟨more₂, hmore₂, -, hsame⟩ := hg.reads (by omega) hok
    obtain rfl := List.append_cancel_right hmore₂
    obtain ⟨c', hc', hmc⟩ := hsame hmore'.symm hrest (by omega)
    exact ⟨c', (bind_of_ok hb).trans hc', hmc⟩

theorem ite {c c' : Prop} [Decidable c] [Decidable c'] {x' y' : Rule α} (hc : c ↔ c')
    (hx : Parallel f n n' k l m x y) (hx' : Parallel f n n' k l m x' y') :
    Parallel f n n' k l m (if c then x else x') (if c' then y else y') := by
  by_cases h : c
  · rw [if_pos h, if_pos (hc.mp h)]
    exact hx
  · rw [if_neg h, if_neg (mt hc.mpr h)]
    exact hx'

theorem fail_bind {cause : Cause} {g : β → Rule α} :
    Parallel f n n' k l m (Rule.fail cause >>= g) y where
  stops before failure _ hfail := by
    cases hfail
    exact List.suffix_rfl
  reads before a rest _ hok := by cases hok

theorem within {phrase phrase' : String} (h : Parallel f n n' k l m x y) :
    Parallel f n n' k l m (Rule.within phrase x) (Rule.within phrase' y) where
  stops before failure hn hfail := by
    unfold Rule.within at hfail
    split at hfail
    · cases hfail
    · rename_i failure' hx
      obtain rfl := Except.error.inj hfail
      have hsuffix := h.stops hn hx
      exact hsuffix
  reads before a rest hn hok := by
    unfold Rule.within at hok
    split at hok
    · rename_i result hx
      obtain rfl := Except.ok.inj hok
      obtain ⟨read, hbefore, hleast, hsame⟩ := h.reads hn hx
      refine ⟨read, hbefore, hleast, fun read' rest' hread hrest hn' => ?_⟩
      obtain ⟨b, hb, hm⟩ := hsame hread hrest hn'
      exact ⟨b, by rw [Rule.within, hb], hm⟩
    · cases hok

/-- A bound that is worked out from the tokens left is always large enough. -/
theorem bounded {x y : Nat → Rule α}
    (h : ∀ b b', b ≤ n → b' ≤ n' → Parallel f b b' k l m (x b) (y b')) :
    Parallel f n n' k l m (fun rest => x rest.length rest) (fun rest => y rest.length rest) where
  stops before failure hn hfail := (h _ 0 hn (Nat.zero_le _)).stops (Nat.le_refl _) hfail
  reads before a rest hn hok := by
    obtain ⟨read, hbefore, hleast, -⟩ := (h _ 0 hn (Nat.zero_le _)).reads (Nat.le_refl _) hok
    refine ⟨read, hbefore, hleast, fun read' rest' hread hrest hn' => ?_⟩
    obtain ⟨read₂, hbefore₂, -, hsame⟩ := (h _ _ hn hn').reads (Nat.le_refl _) hok
    obtain rfl := List.append_cancel_right (hbefore.symm.trans hbefore₂)
    exact hsame hread hrest (Nat.le_refl _)

/-- What can be said however many tokens there are needs no bound on them. -/
theorem reads_all {before rest : List Token} {a : α} (h : ∀ n n', Parallel f n n' k l m x y)
    (hok : x before = .ok (a, rest)) :
    ∃ read, before = read ++ rest ∧ k ≤ read.length ∧
      ∀ ⦃read'⦄ rest', read.map f = read'.map f → (rest.map f).take l = (rest'.map f).take l →
        ∃ b, y (read' ++ rest') = .ok (b, rest') ∧ m a = m b := by
  obtain ⟨read, rfl, hleast, -⟩ := (h _ 0).reads (Nat.le_refl _) hok
  refine ⟨read, rfl, hleast, fun read' rest' hread hrest => ?_⟩
  obtain ⟨read₂, hsplit, -, hsame⟩ := (h _ (read' ++ rest').length).reads (Nat.le_refl _) hok
  obtain rfl := List.append_cancel_right hsplit
  exact hsame hread hrest (Nat.le_refl _)

/-! ### Single tokens -/

theorem next? {h h' : Token → Option α} {g g' : Option α → Rule β}
    (hh : ∀ t u, f t = f u → (h t).map m = (h' u).map m) (hlook : 1 ≤ k + l)
    (hsome : ∀ a b, m a = m b →
      Parallel f (n - 1) (n' - 1) (k - 1) l m' (g (some a)) (g' (some b)))
    (hnone : Parallel f n n' k l m' (g none) (g' none)) :
    Parallel f n n' k l m' (Rule.next? h >>= g) (Rule.next? h' >>= g') := by
  refine choice hlook fun before before' hsame => ?_
  rcases before with _ | ⟨t, before⟩ <;> rcases before' with _ | ⟨u, before'⟩
  · exact ⟨none, none, [], [], [], [], ⟨rfl, rfl⟩, ⟨rfl, rfl⟩, rfl, hnone⟩
  · simp at hsame
  · simp at hsame
  · have hsame : f t = f u := by simpa using hsame
    have hout := hh t u hsame
    cases ht : h t <;> cases hu : h' u <;> rw [ht, hu] at hout
    · exact ⟨none, none, [], [], _, _, ⟨rfl, next?_of_none ht⟩, ⟨rfl, next?_of_none hu⟩, rfl,
        hnone⟩
    · cases hout
    · cases hout
    · exact ⟨_, _, [t], [u], _, _, ⟨rfl, next?_of_some ht⟩, ⟨rfl, next?_of_some hu⟩,
        by simpa using hsame, hsome _ _ (Option.some.inj hout)⟩

theorem next {h h' : Token → Option α} {cause cause' : Cause}
    (hh : ∀ t u, f t = f u → (h t).map m = (h' u).map m) :
    Parallel f n n' 1 0 m (Rule.next h cause) (Rule.next h' cause') :=
  next? hh (Nat.le_refl _) (fun _ _ hm => .pure hm) .fail

theorem eatIf {p : Token → Bool} {g g' : Option Token → Rule β}
    (hp : ∀ t u, f t = f u → p t = p u) (hlook : 1 ≤ k + l)
    (hsome : ∀ t u, f t = f u →
      Parallel f (n - 1) (n' - 1) (k - 1) l m' (g (some t)) (g' (some u)))
    (hnone : Parallel f n n' k l m' (g none) (g' none)) :
    Parallel f n n' k l m' (Rule.eatIf p >>= g) (Rule.eatIf p >>= g') := by
  refine next? (fun t u h => ?_) hlook hsome hnone
  by_cases ht : p t
  · simp [ht, ← hp t u h, h]
  · simp [ht, ← hp t u h]

theorem eat (hf : Token.Keeps f) {word : String} {g g' : Option Token → Rule β}
    (hlook : 1 ≤ k + l)
    (hsome : ∀ t u, f t = f u →
      Parallel f (n - 1) (n' - 1) (k - 1) l m' (g (some t)) (g' (some u)))
    (hnone : Parallel f n n' k l m' (g none) (g' none)) :
    Parallel f n n' k l m' (Rule.eat word >>= g) (Rule.eat word >>= g') :=
  eatIf (fun _ _ h => hf.is_eq h word) hlook hsome hnone

/-- A word that may stand there, on its own. -/
theorem word (hf : Token.Keeps f) {word : String} :
    Parallel f n n' 0 1 (Option.map f) (Rule.eat word) (Rule.eat word) := by
  rw [← bind_pure (Rule.eat word)]
  exact eat hf (by decide) (fun t u htu => .pure (by simp [htu])) (.pure rfl)

theorem need {p : Token → Bool} {cause cause' : Cause} (hp : ∀ t u, f t = f u → p t = p u) :
    Parallel f n n' 1 0 f (Rule.need p cause) (Rule.need p cause') := by
  refine next fun t u h => ?_
  by_cases ht : p t
  · simp [ht, ← hp t u h, h]
  · simp [ht, ← hp t u h]

theorem expect (hf : Token.Keeps f) {word : String} {cause cause' : Cause} :
    Parallel f n n' 1 0 f (Rule.expect word cause) (Rule.expect word cause') :=
  need fun _ _ h => hf.is_eq h word

theorem identifier (hf : Token.Keeps f) {cause cause' : Cause} :
    Parallel f n n' 1 0 f (Rule.identifier cause) (Rule.identifier cause') :=
  need fun _ _ h => by rw [hf.kind_eq h]

theorem sees {p : Token → Bool} {g g' : Bool → Rule β} (hp : ∀ t u, f t = f u → p t = p u)
    (hlook : 1 ≤ k + l) (h : ∀ seen, Parallel f n n' k l m' (g seen) (g' seen)) :
    Parallel f n n' k l m' (Rule.sees p >>= g) (Rule.sees p >>= g') := by
  refine choice hlook fun before before' hsame => ?_
  have hseen : before.head?.any p = before'.head?.any p := by
    rcases before with _ | ⟨t, before⟩ <;> rcases before' with _ | ⟨u, before'⟩
    · rfl
    · simp at hsame
    · simp at hsame
    · simpa using hp t u (by simpa using hsame)
  exact ⟨_, _, [], [], _, _, ⟨rfl, rfl⟩, ⟨rfl, rfl⟩, rfl, hseen ▸ h _⟩

theorem seesSecond {p : Token → Bool} {g g' : Bool → Rule β} (hp : ∀ t u, f t = f u → p t = p u)
    (hlook : 2 ≤ k + l) (h : ∀ seen, Parallel f n n' k l m' (g seen) (g' seen)) :
    Parallel f n n' k l m' (Rule.seesSecond p >>= g) (Rule.seesSecond p >>= g') := by
  refine choice hlook fun before before' hsame => ?_
  have hseen : before[1]?.any p = before'[1]?.any p := by
    rcases before with _ | ⟨t, _ | ⟨t₂, before⟩⟩ <;> rcases before' with _ | ⟨u, _ | ⟨u₂, before'⟩⟩
    all_goals simp at hsame ⊢
    exact hp t₂ u₂ hsame.2
  exact ⟨_, _, [], [], _, _, ⟨rfl, rfl⟩, ⟨rfl, rfl⟩, rfl, hseen ▸ h _⟩

theorem eatPair {p q : Token → Bool} {g g' : Option (Token × Token) → Rule β}
    (hp : ∀ t u, f t = f u → p t = p u) (hq : ∀ t u, f t = f u → q t = q u) (hlook : 2 ≤ k + l)
    (hsome : ∀ t t₂ u u₂, f t = f u → f t₂ = f u₂ →
      Parallel f (n - 2) (n' - 2) (k - 2) l m' (g (some (t, t₂))) (g' (some (u, u₂))))
    (hnone : Parallel f n n' k l m' (g none) (g' none)) :
    Parallel f n n' k l m' (Rule.eatPair p q >>= g) (Rule.eatPair p q >>= g') := by
  refine choice hlook fun before before' hsame => ?_
  rcases before with _ | ⟨t, _ | ⟨t₂, before⟩⟩ <;> rcases before' with _ | ⟨u, _ | ⟨u₂, before'⟩⟩
  case cons.cons.cons.cons =>
    simp only [List.map_cons, List.take_succ_cons, List.take_zero, List.cons.injEq] at hsame
    obtain ⟨h₁, h₂, -⟩ := hsame
    unfold Rule.eatPair
    simp only [← hp t u h₁, ← hq t₂ u₂ h₂]
    by_cases hpq : p t && q t₂
    · simp only [hpq]
      exact ⟨_, _, [t, t₂], [u, u₂], _, _, ⟨rfl, rfl⟩, ⟨rfl, rfl⟩, by simp [h₁, h₂],
        hsome _ _ _ _ h₁ h₂⟩
    · simp only [hpq]
      exact ⟨none, none, [], [], _, _, ⟨rfl, rfl⟩, ⟨rfl, rfl⟩, rfl, hnone⟩
  case nil.nil => exact ⟨none, none, [], [], _, _, ⟨rfl, rfl⟩, ⟨rfl, rfl⟩, rfl, hnone⟩
  case cons.nil.cons.nil => exact ⟨none, none, [], [], _, _, ⟨rfl, rfl⟩, ⟨rfl, rfl⟩, rfl, hnone⟩
  all_goals simp at hsame

theorem eatBefore {p q : Token → Bool} {g g' : Option Token → Rule β}
    (hp : ∀ t u, f t = f u → p t = p u) (hq : ∀ t u, f t = f u → q t = q u) (hlook : 2 ≤ k + l)
    (hsome : ∀ t u, f t = f u →
      Parallel f (n - 1) (n' - 1) (k - 1) l m' (g (some t)) (g' (some u)))
    (hnone : Parallel f n n' k l m' (g none) (g' none)) :
    Parallel f n n' k l m' (Rule.eatBefore p q >>= g) (Rule.eatBefore p q >>= g') := by
  refine choice hlook fun before before' hsame => ?_
  rcases before with _ | ⟨t, _ | ⟨t₂, before⟩⟩ <;> rcases before' with _ | ⟨u, _ | ⟨u₂, before'⟩⟩
  case cons.cons.cons.cons =>
    simp only [List.map_cons, List.take_succ_cons, List.take_zero, List.cons.injEq] at hsame
    obtain ⟨h₁, h₂, -⟩ := hsame
    unfold Rule.eatBefore
    simp only [← hp t u h₁, ← hq t₂ u₂ h₂]
    by_cases hpq : p t && q t₂
    · simp only [hpq]
      exact ⟨_, _, [t], [u], _, _, ⟨rfl, rfl⟩, ⟨rfl, rfl⟩, by simp [h₁], hsome _ _ h₁⟩
    · simp only [hpq]
      exact ⟨none, none, [], [], _, _, ⟨rfl, rfl⟩, ⟨rfl, rfl⟩, rfl, hnone⟩
  case nil.nil => exact ⟨none, none, [], [], _, _, ⟨rfl, rfl⟩, ⟨rfl, rfl⟩, rfl, hnone⟩
  case cons.nil.cons.nil => exact ⟨none, none, [], [], _, _, ⟨rfl, rfl⟩, ⟨rfl, rfl⟩, rfl, hnone⟩
  all_goals simp at hsame

/-! ### Repetition -/

/-- Where there is no room for a token, nothing can be asked of a rule that takes one. -/
theorem of_no_room {ε : Type} {m₂ : α → ε} (h : Parallel f n n' k l m x y)
    (hroom : n = 0 ∨ n' = 0) (hk : 0 < k) : Parallel f n n' k l m₂ x z where
  stops _ _ hn hfail := h.stops hn hfail
  reads before a rest hn hok := by
    obtain ⟨read, rfl, hleast, -⟩ := h.reads hn hok
    rw [List.length_append] at hn
    refine ⟨read, rfl, hleast, fun read' rest' hread _ hn' => ?_⟩
    have hlength : read.length = read'.length := by simpa using congrArg List.length hread
    rw [List.length_append] at hn'
    omega

/-- Where there is no room for a token, rules that may read none are compared on no tokens. -/
theorem of_nil {a b : α} (h : Parallel f n n' 0 1 m x y) (hroom : n = 0 ∨ n' = 0)
    (hx : x [] = .ok (a, [])) (hz : z [] = .ok (b, [])) (hab : m a = m b) :
    Parallel f n n' 0 1 m x z where
  stops _ _ hn hfail := h.stops hn hfail
  reads before c rest hn hok := by
    obtain ⟨read, rfl, -, -⟩ := h.reads hn hok
    rw [List.length_append] at hn
    refine ⟨read, rfl, Nat.zero_le _, fun read' rest' hread hrest hn' => ?_⟩
    have hlength : read.length = read'.length := by simpa using congrArg List.length hread
    have hnil : rest = [] ↔ rest' = [] := by
      rcases rest with _ | _ <;> rcases rest' with _ | _ <;> simp at hrest ⊢
    rw [List.length_append] at hn'
    obtain ⟨rfl, rfl, rfl, rfl⟩ : read = [] ∧ rest = [] ∧ read' = [] ∧ rest' = [] := by
      simp only [← List.length_eq_zero_iff] at hnil ⊢
      omega
    obtain ⟨rfl, -⟩ := Prod.mk.inj (Except.ok.inj (hx.symm.trans hok))
    exact ⟨b, hz, hab⟩

/-- No bound on the number of items is reached, since every item takes a token. -/
theorem separatedUpTo (hf : Token.Keeps f) {word : String} {b b' : Nat} (hb : n ≤ b) (hb' : n' ≤ b')
    (hx : Parallel f n n' 1 1 m x y) :
    Parallel f n n' 1 1 (Separated.mapTokens f m)
      (Rule.separatedUpTo x word b) (Rule.separatedUpTo y word b') := by
  induction b generalizing n n' b' with
  | zero =>
    have hlast : Parallel f n n' 1 1 (Separated.mapTokens f m)
        (Rule.separatedUpTo x word 0) (Rule.separatedUpTo y word 0) :=
      hx.bind (by decide) fun a a' ha => .pure (by simp [Separated.mapTokens, ha])
    exact hlast.of_no_room (.inl (by omega)) (by decide)
  | succ b ih =>
    have more (b' : Nat) (hb' : n' ≤ b' + 1) : Parallel f n n' 1 1 (Separated.mapTokens f m)
        (Rule.separatedUpTo x word (b + 1)) (Rule.separatedUpTo y word (b' + 1)) := by
      refine hx.bind (by decide) fun a a' ha => ?_
      refine eat hf (by decide) (fun t u htu => ?_) (.pure (by simp [Separated.mapTokens, ha]))
      refine (@ih _ _ b' (by omega) (by omega) (hx.shrink (by omega))).bind (by decide) ?_
      intro items items' hitems
      exact .pure (by simp [Separated.mapTokens, ha, htu, hitems])
    cases b' with
    | zero => exact (more b (by omega)).of_no_room (.inr (by omega)) (by decide)
    | succ b' => exact more b' hb'

theorem separated (hf : Token.Keeps f) {word : String} (hx : Parallel f n n' 1 1 m x y) :
    Parallel f n n' 1 1 (Separated.mapTokens f m)
      (Rule.separated x word) (Rule.separated y word) :=
  bounded fun _ _ hb hb' =>
    separatedUpTo hf (Nat.le_refl _) (Nat.le_refl _) (hx.shrink ⟨hb, hb'⟩)

theorem repeatedUpTo {stop : Token → Bool} (hstop : ∀ t u, f t = f u → stop t = stop u)
    {b b' : Nat} (hb : n ≤ b) (hb' : n' ≤ b') (hx : Parallel f n n' 1 1 m x y) :
    Parallel f n n' 0 1 (List.map m) (Rule.repeatedUpTo x stop b)
      (Rule.repeatedUpTo y stop b') := by
  induction b generalizing n n' b' with
  | zero =>
    have hnone : Parallel f n n' 0 1 (List.map m) (Rule.repeatedUpTo x stop 0)
        (Rule.repeatedUpTo x stop 0) := .pure rfl
    exact hnone.of_nil (.inl (by omega)) (repeatedUpTo_nil ..) (repeatedUpTo_nil ..) rfl
  | succ b ih =>
    have more (b' : Nat) (hb' : n' ≤ b' + 1) : Parallel f n n' 0 1 (List.map m)
        (Rule.repeatedUpTo x stop (b + 1)) (Rule.repeatedUpTo y stop (b' + 1)) := by
      rw [repeatedUpTo_succ, repeatedUpTo_succ]
      refine sees (fun t u htu => by rw [hstop t u htu]) (by decide) fun seen => ?_
      refine ite Iff.rfl ?_ (.pure rfl)
      refine hx.bind (by decide) fun a a' ha => ?_
      refine (@ih _ _ b' (by omega) (by omega) (hx.shrink (by omega))).bind (by decide) ?_
      intro items items' hitems
      exact .pure (by simp [ha, hitems])
    cases b' with
    | zero =>
      exact (more b (by omega)).of_nil (.inr (by omega)) (repeatedUpTo_nil ..)
        (repeatedUpTo_nil ..) rfl
    | succ b' => exact more b' hb'

theorem repeated {stop : Token → Bool} (hstop : ∀ t u, f t = f u → stop t = stop u)
    (hx : Parallel f n n' 1 1 m x y) :
    Parallel f n n' 0 1 (List.map m) (Rule.repeated x stop) (Rule.repeated y stop) :=
  bounded fun _ _ hb hb' =>
    repeatedUpTo hstop (Nat.le_refl _) (Nat.le_refl _) (hx.shrink ⟨hb, hb'⟩)

end Parallel

end WebIdl.Grammar.Rule
