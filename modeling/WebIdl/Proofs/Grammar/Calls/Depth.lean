import Mathlib.Logic.Function.Iterate
import WebIdl.Proofs.Grammar.Calls.Ranks
import WebIdl.Proofs.Grammar.Parallel.Nested

/-!
# How deep calls nest

* `nested_agree` — by induction on the number of tokens, the rules at two depths are the same on no
  more tokens than either has levels, failures included.
* `unfold_rules` — so the grammar is made of its own rules, and the depth they were tied to is gone.
* `agreeBelow_iterate` — by induction on the number of levels, what is done in the place of calls
  that are nested deeper does not matter where the tokens and the rank allow for no more levels.
-/

namespace WebIdl.Grammar

open Rule

/-! ### The rules are those that unfold to themselves -/

namespace Nested

/-- The rules of one level, with those that `inner` recurs on for types and attributes. -/
def calls (inner : Nested) : Rules
  | .idlType missing => inner.type missing
  | .unionType missing opening => inner.unionType missing opening
  | .singleType missing => inner.singleType missing
  | .argumentList missing => inner.argumentList missing
  | .argument => inner.argument
  | .default => default?
  | .literal missing => literal missing
  | .extAttrs => inner.attrs
  | .extAttr => inner.extAttr
  | .extAttrValue => extAttrValue
  | _ => fail .unknownDefinition

/-- What a type of this level calls. The attributes before it are of this level too, and not of the
one that `inner` recurs on. -/
def outer (inner : Nested) : Rules
  | .extAttrs => inner.extAttrs
  | call => inner.calls call

/-- What the rules recur on is the same on at most `n` tokens. -/
structure Agree (n : Nat) (inner inner' : Nested) : Prop where
  type (missing : Cause) : Rule.Agree n (inner.type missing) (inner'.type missing)
  attrs : Rule.Agree n inner.attrs inner'.attrs

namespace Agree

variable {n : Nat} {inner inner' : Nested}

/-- The rules that are written over a type on at most `n` tokens, which has rank 2, are at most those
of rank 3. Attributes have rank 1, which would let them be called on one token too many. -/
theorem calls (h : Agree n inner inner') (call : Call) (m : Nat)
    (hm : 2 * m + call.rank < 2 * n + 4) (hattrs : call = .extAttrs → m ≤ n) :
    Rule.Agree m (inner.calls call) (inner'.calls call) := by
  have below : Rules.AgreeBelow (2 * m + call.rank) inner.calls inner'.calls := by
    intro callee k hk
    refine h.calls callee k (by omega) ?_
    rintro rfl
    rw [Call.rank] at hk
    omega
  cases call with
  | idlType missing => exact (h.type missing).mono (by rw [Call.rank] at hm; omega)
  | unionType missing opening => exact below.unionType missing opening
  | singleType missing => exact below.singleType missing
  | argumentList missing => exact below.argumentList missing
  | argument => exact below.argument
  | default => exact .of_reads default?_reads
  | literal missing => exact .of_reads (literal_reads missing)
  | extAttrs => exact h.attrs.mono (hattrs rfl)
  | extAttr => exact below.extAttr
  | extAttrValue => exact .of_reads extAttrValue_reads
  | _ => exact .fail
termination_by 2 * m + call.rank

theorem extAttrs (h : Agree n inner inner') :
    Rule.Agree (n + 1) inner.extAttrs inner'.extAttrs := by
  have below : Rules.AgreeBelow (2 * (n + 1) + 1) inner.calls inner'.calls := by
    intro call m hm
    refine h.calls call m (by omega) ?_
    rintro rfl
    rw [Call.rank] at hm
    omega
  exact below.extAttrs

theorem outer (h : Agree n inner inner') :
    Rules.AgreeBelow (2 * (n + 1) + 2) inner.outer inner'.outer := by
  intro call m hm
  have hcalls (hne : call ≠ .extAttrs) : Rule.Agree m (inner.calls call) (inner'.calls call) :=
    h.calls call m (by omega) fun heq => absurd heq hne
  cases call with
  | extAttrs => exact h.extAttrs.mono (by rw [Call.rank] at hm; omega)
  | _ => exact hcalls nofun

theorem idlType (h : Agree n inner inner') (missing : Cause) :
    Rule.Agree (n + 1) (inner.idlType missing) (inner'.idlType missing) :=
  h.outer.idlType missing

theorem argumentList (h : Agree n inner inner') (missing : Cause) :
    Rule.Agree (n + 1) (inner.argumentList missing) (inner'.argumentList missing) :=
  h.outer.argumentList missing

end Agree

end Nested

theorem nested_type_nil (depth : Nat) (missing : Cause) :
    (nested depth).type missing [] = fail missing [] := by
  cases depth <;> rfl

theorem nested_agree {n d d' : Nat} (hd : n ≤ d) (hd' : n ≤ d') :
    Nested.Agree n (nested d) (nested d') := by
  induction n generalizing d d' with
  | zero =>
    refine ⟨fun missing => .of_nil ?_ (.of_reads ((nested_sound d').type missing)),
      .of_nil ?_ (.of_reads (nested_sound d').attrs)⟩
    · rw [nested_type_nil, nested_type_nil]
    · rw [nested_attrs_nil, nested_attrs_nil]
  | succ n ih =>
    obtain ⟨d, rfl⟩ := Nat.exists_eq_add_of_lt hd
    obtain ⟨d', rfl⟩ := Nat.exists_eq_add_of_lt hd'
    have h := ih (Nat.le_add_right n d) (Nat.le_add_right n d')
    exact ⟨h.idlType, h.extAttrs⟩

/-- On no more tokens than there are levels, the rules at a depth are those without. -/
theorem nested_agree_all {n d : Nat} (hd : n ≤ d) :
    Nested.Agree n (nested d) ⟨idlType, extAttrs⟩ := by
  have deeper {before : List Token} (hn : before.length ≤ n) :
      Nested.Agree before.length (nested d) (nested (before.length + 1)) :=
    nested_agree (Nat.le_trans hn hd) (Nat.le_succ _)
  refine ⟨fun missing => ⟨fun before hn => ?_, ?_⟩, ⟨fun before hn => ?_, ?_⟩⟩
  · exact ((deeper hn).type missing).same (Nat.le_refl _)
  · exact (Agree.of_reads (idlType_reads missing)).leaves
  · exact (deeper hn).attrs.same (Nat.le_refl _)
  · exact (Agree.of_reads extAttrs_reads).leaves

theorem idlType_eq (missing : Cause) :
    idlType missing = Nested.idlType ⟨idlType, extAttrs⟩ missing :=
  funext fun _ => ((nested_agree_all (Nat.le_refl _)).idlType missing).same (Nat.le_succ _)

theorem extAttrs_eq : extAttrs = Nested.extAttrs ⟨idlType, extAttrs⟩ :=
  funext fun _ => (nested_agree_all (Nat.le_refl _)).extAttrs.same (Nat.le_succ _)

theorem argumentList_eq (missing : Cause) :
    argumentList missing = Nested.argumentList ⟨idlType, extAttrs⟩ missing :=
  funext fun _ => ((nested_agree_all (Nat.le_refl _)).argumentList missing).same (Nat.le_succ _)

/-- The grammar is made of its own rules, each with its calls. -/
theorem unfold_rules : rules.unfold = rules := by
  funext call
  cases call with
  | idlType missing =>
    refine Eq.trans ?_ (idlType_eq missing).symm
    rw [Nested.idlType, ← extAttrs_eq]
    rfl
  | argumentList missing => exact (argumentList_eq missing).symm
  | extAttrs => exact extAttrs_eq.symm
  | extAttr =>
    change rules.unfold .extAttr = Nested.extAttr ⟨Grammar.idlType, Grammar.extAttrs⟩
    rw [Nested.extAttr, ← argumentList_eq]
    rfl
  | members container scope => cases container <;> rfl
  | _ => rfl

/-! ### Nesting -/

/-- With `depth` levels of calls before `base` is called, the rules are those of the grammar on what
takes no more levels. -/
theorem agreeBelow_iterate (base : Rules) (depth : Nat) :
    Rules.AgreeBelow (depth + 1) (Rules.unfold^[depth] base) rules := by
  induction depth with
  | zero =>
    intro call n hn
    have hrank := call.rank_pos
    omega
  | succ depth ih =>
    intro call n hn
    rw [Function.iterate_succ_apply', ← unfold_rules]
    exact Rules.unfold_agree call (ih.mono (by omega))

end WebIdl.Grammar
