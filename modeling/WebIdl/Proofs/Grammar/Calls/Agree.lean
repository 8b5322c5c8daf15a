import WebIdl.Proofs.Grammar.Reads
import WebIdl.Proofs.Grammar.Rule

/-!
# Rules that agree on few tokens

Two rules that call different rules give the same as long as those do, on the tokens that are left
where they are called.

* `Rule.Agree` — two rules give the same on at most so many tokens. A rule is followed along its
  steps, and after a token that it must have read there is one token fewer.
* `Agree.separatedUpTo_bounds`, `Agree.repeatedUpTo_bounds` — a loop over what reads a token each
  time gives the same with all bounds that are large enough.
-/

namespace WebIdl.Grammar.Rule

variable {α β : Type} {n : Nat}

/-- On at most `n` tokens `x` gives what `y` gives, and leaves no more tokens than there were. -/
structure Agree (n : Nat) (x y : Rule α) : Prop where
  same : ∀ ⦃before⦄, before.length ≤ n → x before = y before
  leaves : ∀ ⦃before a after⦄, before.length ≤ n → y before = .ok (a, after) →
    after.length ≤ before.length

/-- Where the rule succeeds, it has read a token or more. -/
def Consumes (rule : Rule α) : Prop :=
  ∀ ⦃before a after⦄, rule before = .ok (a, after) → after.length < before.length

theorem need_consumes (p : Token → Bool) (cause : Cause) : (need p cause).Consumes := by
  intro before token after hok
  obtain ⟨read, rfl, rfl, -⟩ := Reads.need p cause hok
  simp

namespace Agree

variable {x y : Rule α} {g g' : α → Rule β}

/-! ### Steps -/

theorem of_reads {post : α → List Token → Prop} (h : x.Reads post) : Agree n x x where
  same _ _ := rfl
  leaves before a after _ hok := by
    obtain ⟨read, rfl, -⟩ := h hok
    simp

theorem of_consumes (h : x.Consumes) : Agree n x x where
  same _ _ := rfl
  leaves _ _ _ _ hok := Nat.le_of_lt (h hok)

theorem of_nil (h : x [] = y []) (hy : Agree 0 y y) : Agree 0 x y where
  same before hn := by
    obtain rfl := List.length_eq_zero_iff.mp (Nat.le_zero.mp hn)
    exact h
  leaves := hy.leaves

theorem mono {p : Nat} (h : Agree p x y) (hle : n ≤ p) : Agree n x y where
  same _ hn := h.same (by omega)
  leaves _ _ _ hn hok := h.leaves (by omega) hok

theorem pure {a : α} : Agree n (Pure.pure a : Rule α) (Pure.pure a) :=
  of_reads (.pure trivial : Reads _ fun _ _ => True)

theorem fail {cause : Cause} : Agree n (Rule.fail cause : Rule α) (Rule.fail cause) :=
  of_reads (.fail : Reads _ fun _ _ => True)

/-- What follows a failure is not called. -/
theorem fail_bind {cause : Cause} :
    Agree n (Rule.fail cause >>= g) (Rule.fail cause >>= g') where
  same _ _ := rfl
  leaves before a after _ hok := by cases hok

theorem bind (hx : Agree n x y) (hg : ∀ a, Agree n (g a) (g' a)) :
    Agree n (x >>= g) (y >>= g') where
  same before hn := by
    change (x before >>= fun r => g r.1 r.2) = (y before >>= fun r => g' r.1 r.2)
    rw [hx.same hn]
    cases hy : y before with
    | error failure => rfl
    | ok r => exact (hg r.1).same (Nat.le_trans (hx.leaves hn hy) hn)
  leaves before b after hn hok := by
    obtain ⟨a, between, ha, hb⟩ := bind_eq_ok_iff.mp hok
    have hbetween := hx.leaves hn ha
    exact Nat.le_trans ((hg a).leaves (Nat.le_trans hbetween hn) hb) hbetween

/-- After a rule that has read a token, one fewer is left. -/
theorem consumes_bind (hx : x.Consumes) (hg : ∀ a, 0 < n → Agree (n - 1) (g a) (g' a)) :
    Agree n (x >>= g) (x >>= g') where
  same before hn := by
    change (x before >>= fun r => g r.1 r.2) = (x before >>= fun r => g' r.1 r.2)
    cases hr : x before with
    | error failure => rfl
    | ok r =>
      have hlt := hx hr
      exact (hg r.1 (by omega)).same (by omega)
  leaves before b after hn hok := by
    obtain ⟨a, between, ha, hb⟩ := bind_eq_ok_iff.mp hok
    have hlt := hx ha
    have hle := (hg a (by omega)).leaves (by omega) hb
    omega

theorem map {f : α → β} (h : Agree n x y) : Agree n (f <$> x) (f <$> y) := by
  rw [map_eq_pure_bind, map_eq_pure_bind]
  exact h.bind fun _ => .pure

theorem ite {c : Prop} [Decidable c] {x' y' : Rule α} (hx : Agree n x y) (hx' : Agree n x' y') :
    Agree n (if c then x else x') (if c then y else y') := by
  split
  · exact hx
  · exact hx'

theorem within {phrase : String} (h : Agree n x y) :
    Agree n (Rule.within phrase x) (Rule.within phrase y) where
  same before hn := by rw [Rule.within, Rule.within, h.same hn]
  leaves before a after hn hok := by
    unfold Rule.within at hok
    split at hok
    · rename_i result hy
      obtain rfl := Except.ok.inj hok
      exact h.leaves hn hy
    · cases hok

/-- A bound that is worked out from the tokens left is the same for both. -/
theorem bounded {x y : Nat → Rule α} (h : ∀ bound, Agree n (x bound) (y bound)) :
    Agree n (fun rest => x rest.length rest) (fun rest => y rest.length rest) where
  same before hn := (h before.length).same hn
  leaves before _ _ hn hok := (h before.length).leaves hn hok

/-! ### Single tokens -/

theorem eatIf {p : Token → Bool} : Agree n (Rule.eatIf p) (Rule.eatIf p) := of_reads (.eatIf p)

theorem eat {word : String} : Agree n (Rule.eat word) (Rule.eat word) := eatIf

theorem need {p : Token → Bool} {cause : Cause} : Agree n (Rule.need p cause) (Rule.need p cause) :=
  of_reads (.need p cause)

theorem expect {word : String} {cause : Cause} :
    Agree n (Rule.expect word cause) (Rule.expect word cause) :=
  need

theorem identifier {cause : Cause} : Agree n (Rule.identifier cause) (Rule.identifier cause) := need

theorem sees {p : Token → Bool} : Agree n (Rule.sees p) (Rule.sees p) := of_reads (.sees p)

/-- After a token that was there to be read, one fewer is left. -/
theorem next?_bind {h : Token → Option α} {g g' : Option α → Rule β}
    (hsome : ∀ a, 0 < n → Agree (n - 1) (g (some a)) (g' (some a)))
    (hnone : Agree n (g none) (g' none)) :
    Agree n (Rule.next? h >>= g) (Rule.next? h >>= g') where
  same before hn := by
    rcases before with _ | ⟨token, rest⟩
    · exact hnone.same hn
    · rw [List.length_cons] at hn
      cases ha : h token with
      | none =>
        rw [bind_of_ok (next?_of_none ha), bind_of_ok (next?_of_none ha)]
        exact hnone.same hn
      | some a =>
        rw [bind_of_ok (next?_of_some ha), bind_of_ok (next?_of_some ha)]
        exact (hsome a (by omega)).same (by omega)
  leaves before b after hn hok := by
    rcases before with _ | ⟨token, rest⟩
    · exact hnone.leaves hn hok
    · rw [List.length_cons] at hn
      cases ha : h token with
      | none =>
        rw [bind_of_ok (next?_of_none ha)] at hok
        exact hnone.leaves hn hok
      | some a =>
        rw [bind_of_ok (next?_of_some ha)] at hok
        exact Nat.le_succ_of_le ((hsome a (by omega)).leaves (by omega) hok)

theorem eat_bind {word : String} {g g' : Option Token → Rule β}
    (hsome : ∀ token, 0 < n → Agree (n - 1) (g (some token)) (g' (some token)))
    (hnone : Agree n (g none) (g' none)) :
    Agree n (Rule.eat word >>= g) (Rule.eat word >>= g') :=
  next?_bind hsome hnone

theorem need_bind {p : Token → Bool} {cause : Cause} {g g' : Token → Rule β}
    (h : ∀ token, 0 < n → Agree (n - 1) (g token) (g' token)) :
    Agree n (Rule.need p cause >>= g) (Rule.need p cause >>= g') :=
  consumes_bind (need_consumes p cause) h

/-! ### Repetition -/

theorem separated (h : Agree n x y) {word : String} :
    Agree n (Rule.separated x word) (Rule.separated y word) := by
  refine bounded fun bound => ?_
  induction bound with
  | zero => exact h.bind fun _ => .pure
  | succ bound ih =>
    refine h.bind fun a => eat.bind ?_
    rintro (_ | separator)
    · exact .pure
    · exact ih.bind fun _ => .pure

theorem repeatedUpTo (h : Agree n x y) {stop : Token → Bool} (bound : Nat) :
    Agree n (Rule.repeatedUpTo x stop bound) (Rule.repeatedUpTo y stop bound) := by
  induction bound with
  | zero => exact .pure
  | succ bound ih =>
    rw [repeatedUpTo_succ, repeatedUpTo_succ]
    refine sees.bind fun seen => .ite ?_ .pure
    exact h.bind fun a => ih.bind fun _ => .pure

theorem repeated (h : Agree n x y) {stop : Token → Bool} :
    Agree n (Rule.repeated x stop) (Rule.repeated y stop) :=
  bounded h.repeatedUpTo

/-! ### Bounds on repetition -/

/-- No bound is reached that is as large as the number of tokens, since every item takes one. -/
theorem separatedUpTo_bounds (hx : x.Consumes) (word : String) {b b' : Nat} (hb : n ≤ b)
    (hb' : n ≤ b') :
    Agree n (Rule.separatedUpTo x word b) (Rule.separatedUpTo x word b') := by
  have on_nil (b b' : Nat) :
      Agree 0 (Rule.separatedUpTo x word b) (Rule.separatedUpTo x word b') := by
    cases b <;> cases b' <;> exact consumes_bind hx fun _ hn => absurd hn (Nat.lt_irrefl 0)
  induction b generalizing n b' with
  | zero =>
    obtain rfl := Nat.le_zero.mp hb
    exact on_nil 0 b'
  | succ b ih =>
    cases b' with
    | zero =>
      obtain rfl := Nat.le_zero.mp hb'
      exact on_nil (b + 1) 0
    | succ b' =>
      refine consumes_bind hx fun a hn => eat.bind ?_
      rintro (_ | separator)
      · exact .pure
      · exact (ih (by omega) (by omega)).bind fun _ => .pure

theorem repeatedUpTo_bounds (hx : x.Consumes) (stop : Token → Bool) {b b' : Nat} (hb : n ≤ b)
    (hb' : n ≤ b') :
    Agree n (Rule.repeatedUpTo x stop b) (Rule.repeatedUpTo x stop b') := by
  have on_nil (b b' : Nat) :
      Agree 0 (Rule.repeatedUpTo x stop b) (Rule.repeatedUpTo x stop b') :=
    .of_nil (by rw [repeatedUpTo_nil, repeatedUpTo_nil]) ((of_consumes hx).repeatedUpTo b')
  induction b generalizing n b' with
  | zero =>
    obtain rfl := Nat.le_zero.mp hb
    exact on_nil 0 b'
  | succ b ih =>
    cases b' with
    | zero =>
      obtain rfl := Nat.le_zero.mp hb'
      exact on_nil (b + 1) 0
    | succ b' =>
      rw [repeatedUpTo_succ, repeatedUpTo_succ]
      refine sees.bind fun seen => .ite ?_ .pure
      exact consumes_bind hx fun a hn => (ih (by omega) (by omega)).bind fun _ => .pure

end Agree

end WebIdl.Grammar.Rule
