import Mathlib.Data.List.Basic
import WebIdl.Proofs.Document.Orphans
import WebIdl.Proofs.Markup.Offending

/-!
# Markup and warnings agree

A partial definition whose name resolves to nothing is marked in the markup of its block, and it is
warned of. The two are found in different ways: the renderer resolves the name, and the checks go
through the partial definitions without a base and ask the resolver only then. They find the same
names, since a name that resolves to nothing is the name of no base definition.

* `Document.reported_eq` — the partial definitions that are warned of are those whose names resolve
  to nothing.
* `Document.orphan_warnings_eq` — the warnings are those of the names that are marked, block by
  block.
* `Document.orphanNamed?` — the name that a warning says is in a block.
* `Document.offending_names_reported` — the names that are marked in a block are those that are
  warned of there.
-/

namespace WebIdl.Document

open Markup

/-! ### What is warned of -/

section Reported

variable (settings : Settings) (provider : Option Xref.Provider) (input : DocumentInput)

/-- What the block at an index cites. -/
theorem cite_of_mem {block : BlockInput} {index : Nat}
    (hblock : (block, index) ∈ input.blocks.zipIdx) :
    ((input.blocks.map (·.cite))[index]?).getD [] = block.cite := by
  rw [List.getElem?_map, List.mem_zipIdx_iff_getElem?.mp hblock]
  rfl

/-- A partial definition is warned of when its name resolves to nothing: nothing is then its base. -/
theorem reported_eq :
    reported settings provider input = (placed (definitions input)).filter fun (place, d) =>
      d.isPartial && (((resolver settings provider input).withCite
        (((input.blocks.map (·.cite))[place.block]?).getD [])).type? d.name).isNone := by
  unfold reported
  rw [List.filter_filter, List.filter_filter]
  apply List.filter_congr
  rintro ⟨place, d⟩ hd
  obtain ⟨block, hblock, -⟩ := mem_placed_iff.mp hd
  dsimp only
  rw [cite_of_mem input hblock]
  cases hpartial : d.isPartial with
  | false => simp
  | true =>
    cases htype : ((resolver settings provider input).withCite block.cite).type? d.name with
    | some target => simp
    | none =>
      obtain ⟨-, hundefined⟩ :=
        (type?_eq_none_iff settings provider input hblock hd hpartial).mp htype
      have horphan : Orphan input d :=
        ⟨hpartial, fun p e he hbase hname _ => hundefined p e he hbase hname⟩
      simp [(isBaseless_iff input hpartial).mpr horphan]

/-- The definitions of a block whose names resolve to nothing. -/
def unresolvedIn (block : BlockInput) : List Definition :=
  (rendering settings provider input block).unresolved
    (Block.parse block.source block.id).definitions

theorem placed_definitions :
    placed (definitions input) = input.blocks.zipIdx.flatMap fun entry =>
      (Block.parse entry.1.source entry.1.id).definitions.zipIdx.map fun found =>
        (⟨entry.2, found.2⟩, found.1) := by
  unfold placed definitions readBlocks
  rw [List.map_map, List.zipIdx_map, List.flatMap_map]
  rfl

/-- The warnings about orphans are those of the partial definitions whose names resolve to nothing,
block by block. -/
theorem orphan_warnings_eq (hrule : settings.checks.orphanPartial = true) :
    (build settings provider input).warnings.filter
        (fun warning => warning.code == some "orphan-partial") =
      input.blocks.zipIdx.flatMap fun entry =>
        (unresolvedIn settings provider input entry.1).map fun d =>
          orphanWarning entry.2 d.name := by
  rw [filter_orphan_warnings_build settings provider input hrule, reported_eq, placed_definitions,
    List.filter_flatMap, List.map_flatMap]
  apply List.flatMap_congr
  rintro ⟨block, index⟩ hblock
  rw [List.filter_map, List.map_map]
  -- the places of the definitions have no part in it
  have hplaces : (Block.parse block.source block.id).definitions.zipIdx.map (·.1) =
      (Block.parse block.source block.id).definitions := List.zipIdx_map_fst 0 _
  rw [unresolvedIn, Rendering.unresolved, ← hplaces, List.filter_map, List.map_map, hplaces]
  apply congrArg
  apply List.filter_congr
  rintro ⟨d, i⟩ -
  simp only [Function.comp_apply, Rendering.isUnresolved, cite_of_mem input hblock]
  rfl

/-- The names that are marked in a block, without the underscore that keeps them from being read as
keywords, are those of its definitions whose names resolve to nothing. -/
theorem offendingNames_build {index : Nat} {built : RenderedBlock}
    (hbuilt : (build settings provider input).blocks[index]? = some built) :
    ∃ block, input.blocks[index]? = some block ∧
      (offendingNames [built.markup.markup]).map unescape =
        (unresolvedIn settings provider input block).map (·.name) := by
  rw [blocks_build, List.getElem?_map, List.getElem?_zipIdx, Nat.zero_add] at hbuilt
  cases hblock : input.blocks[index]? with
  | none =>
    rw [hblock] at hbuilt
    cases hbuilt
  | some block =>
    rw [hblock] at hbuilt
    obtain rfl := Option.some.inj hbuilt
    refine ⟨block, rfl, ?_⟩
    dsimp only
    rw [offendingNames_markup, children_renderBlock, Rendering.offendingNames_block, List.map_map]
    · rfl
    · exact StartTag.isOffendingName_of_tag (by simp [tag_renderBlock])

end Reported

/-! ### Reading a warning -/

/-- The name that a warning about an orphan says is in a block. -/
def orphanNamed? (block : Nat) (warning : Diagnostic) : Option String :=
  if warning.code = some "orphan-partial" then
    (warning.message.toList.dropPrefix? "Partial definition `".toList).bind fun rest =>
      (rest.dropSuffix? ("` in " ++ blockName block ++
        " does not extend any known definition.").toList).map String.ofList
  else none

theorem toString_inj {m n : Nat} (h : (toString m).toList = (toString n).toList) : m = n := by
  rw [Nat.toString_eq_ofList_toDigits, Nat.toString_eq_ofList_toDigits, String.toList_ofList,
    String.toList_ofList] at h
  rw [← Nat.ofDigitChars_ten_toDigits (n := m), h, Nat.ofDigitChars_ten_toDigits]

theorem not_mem_toString {n : Nat} : '#' ∉ (toString n).toList := by
  intro h
  rw [Nat.toString_eq_ofList_toDigits, String.toList_ofList] at h
  have hdigit := Nat.isDigit_of_mem_toDigits (by decide) (by decide) h
  exact absurd hdigit (by decide)

/-- What comes after the last place of something is found again. -/
theorem eq_of_append_cons_eq {α : Type} {a : α} {xs xs' ys ys' : List α}
    (h : xs ++ a :: ys = xs' ++ a :: ys') (hys : a ∉ ys) (hys' : a ∉ ys') : ys = ys' := by
  rcases List.append_eq_append_iff.mp h with ⟨between, -, heq⟩ | ⟨between, -, heq⟩
  · cases between with
    | nil => exact (List.cons.inj heq).2
    | cons b between =>
      obtain ⟨-, rfl⟩ := List.cons.inj heq
      simp at hys
  · cases between with
    | nil => exact (List.cons.inj heq).2.symm
    | cons b between =>
      obtain ⟨-, rfl⟩ := List.cons.inj heq
      simp at hys'

/-- A text that ends with the name of a block, and then with more, ends with that of no other. -/
theorem dropSuffix?_blockName {block index : Nat} {before after : String}
    (hafter : '#' ∉ after.toList) (name : List Char) :
    (name ++ (before ++ blockName index ++ after).toList).dropSuffix?
        (before ++ blockName block ++ after).toList =
      if index = block then some name else none := by
  by_cases hsame : index = block
  · subst hsame
    rw [if_pos rfl, List.dropSuffix?_eq_some_iff]
    exact ⟨_, rfl, beq_self_eq_true _⟩
  · rw [if_neg hsame, Option.eq_none_iff_forall_ne_some]
    intro rest hrest
    obtain ⟨suffix, heq, hsuffix⟩ := List.dropSuffix?_eq_some_iff.mp hrest
    rw [beq_iff_eq.mp hsuffix] at heq
    -- the number of the block comes after the last hash
    have hnumber (n : Nat) (text : List Char) :
        text ++ (before ++ blockName n ++ after).toList =
          (text ++ before.toList ++ "block ".toList) ++
            '#' :: ((toString n).toList ++ after.toList) := by
      have hname : (blockName n).toList = "block ".toList ++ '#' :: (toString n).toList := by
        rw [blockName, String.toList_append]
        rfl
      simp [hname]
    have hhash (n : Nat) : '#' ∉ (toString n).toList ++ after.toList := by
      rw [List.mem_append]
      exact not_or.mpr ⟨not_mem_toString, hafter⟩
    rw [hnumber, hnumber] at heq
    have hnumbers := eq_of_append_cons_eq heq (hhash index) (hhash block)
    exact hsame (toString_inj (List.append_cancel_right hnumbers))

/-- A warning about an orphan names one block, and the name in it is that of the orphan. -/
theorem orphanNamed?_orphanWarning (block index : Nat) (name : String) :
    orphanNamed? block (orphanWarning index name) = if index = block then some name else none := by
  have hcode : (orphanWarning index name).code = some "orphan-partial" := rfl
  have hmessage : (orphanWarning index name).message.toList =
      "Partial definition `".toList ++ (name.toList ++ ("` in " ++ blockName index ++
        " does not extend any known definition.").toList) := by
    have heq : (orphanWarning index name).message = "Partial definition `" ++ name ++ "` in " ++
      blockName index ++ " does not extend any known definition." := rfl
    simp only [heq, String.toList_append, List.append_assoc]
  have hafter : '#' ∉ " does not extend any known definition.".toList := by decide
  have hprefix (xs ys : List Char) : (xs ++ ys).dropPrefix? xs = some ys :=
    List.dropPrefix?_eq_some_iff.mpr ⟨xs, rfl, beq_self_eq_true _⟩
  rw [orphanNamed?, if_pos hcode, hmessage, hprefix, Option.bind_some,
    dropSuffix?_blockName hafter]
  split
  · rw [Option.map_some, String.ofList_toList]
  · rfl

/-- Only one place in a list counts for something that is empty at all others. -/
theorem flatMap_zipIdx_eq {α β : Type} {f : α × Nat → List β} {xs : List α} {a : α} {i : Nat}
    (ha : xs[i]? = some a) (hother : ∀ b j, j ≠ i → f (b, j) = []) :
    xs.zipIdx.flatMap f = f (a, i) := by
  obtain ⟨hi, rfl⟩ := List.getElem?_eq_some_iff.mp ha
  have hbefore : (xs.take i).zipIdx.flatMap f = [] := by
    rw [List.flatMap_eq_nil_iff]
    rintro ⟨b, j⟩ hentry
    have hlt : j < (xs.take i).length := by simpa using List.snd_lt_of_mem_zipIdx hentry
    exact hother b j (Nat.ne_of_lt (hlt.trans_le (List.length_take_le i xs)))
  have hafter : ((xs.drop (i + 1)).zipIdx (i + 1)).flatMap f = [] := by
    rw [List.flatMap_eq_nil_iff]
    rintro ⟨b, j⟩ hentry
    exact hother b j (Nat.ne_of_gt (List.le_snd_of_mem_zipIdx hentry))
  have hsplit : xs = xs.take i ++ xs[i] :: xs.drop (i + 1) := by
    rw [← List.drop_eq_getElem_cons hi, List.take_append_drop]
  have hlength : (xs.take i).length = i := List.length_take_of_le (Nat.le_of_lt hi)
  conv_lhs => rw [hsplit, List.zipIdx_append, hlength, Nat.zero_add, List.zipIdx_cons]
  rw [List.flatMap_append, List.flatMap_cons, hbefore, hafter, List.nil_append, List.append_nil]

section Agreement

variable (settings : Settings) (provider : Option Xref.Provider) (input : DocumentInput)

theorem filterMap_orphanNamed?_build {index : Nat} {block : BlockInput}
    (hrule : settings.checks.orphanPartial = true) (hblock : input.blocks[index]? = some block) :
    (build settings provider input).warnings.filterMap (orphanNamed? index) =
      (unresolvedIn settings provider input block).map (·.name) := by
  have hcode : (build settings provider input).warnings.filterMap (orphanNamed? index) =
      ((build settings provider input).warnings.filter
        (fun warning => warning.code == some "orphan-partial")).filterMap (orphanNamed? index) := by
    rw [List.filterMap_filter]
    apply List.filterMap_congr
    intro warning _
    simp only [orphanNamed?, beq_iff_eq]
    split <;> rfl
  rw [hcode, orphan_warnings_eq settings provider input hrule, List.filterMap_flatMap]
  have hnamed (entry : BlockInput × Nat) :
      (((unresolvedIn settings provider input entry.1).map fun d =>
        orphanWarning entry.2 d.name).filterMap (orphanNamed? index)) =
          if entry.2 = index then (unresolvedIn settings provider input entry.1).map (·.name)
          else [] := by
    rw [List.filterMap_map]
    have hcomp : (orphanNamed? index ∘ fun d : Definition => orphanWarning entry.2 d.name) =
        fun d => if entry.2 = index then some d.name else none := by
      funext d
      rw [Function.comp_apply, orphanNamed?_orphanWarning]
    rw [hcomp]
    split <;> simp
  simp only [hnamed]
  rw [flatMap_zipIdx_eq hblock fun _ _ hne => if_neg hne, if_pos rfl]

/-- **Markup and warnings agree on orphans.** The names that are marked in a block are, without the
underscore that keeps them from being read as keywords, those of the warnings about orphans that name
the block, in the same order. -/
theorem offending_names_reported (hrule : settings.checks.orphanPartial = true) {index : Nat}
    {built : RenderedBlock} (hbuilt : (build settings provider input).blocks[index]? = some built) :
    (offendingNames [built.markup.markup]).map unescape =
      (build settings provider input).warnings.filterMap (orphanNamed? index) := by
  obtain ⟨block, hblock, hnames⟩ := offendingNames_build settings provider input hbuilt
  rw [hnames, filterMap_orphanNamed?_build settings provider input hrule hblock]

end Agreement

/-- Two partial definitions with nothing to extend, one with an underscore before its name. -/
def strays : BlockInput := .ofSource "partial interface _X {};\npartial dictionary Y {};"

/-- A document with another partial definition before them. -/
def straying : DocumentInput := .block (.block .empty extending) strays

/-- Both are marked, and both are warned of without the underscore. The warning about the block
before is not one of theirs. -/
theorem offending_names_reported_strays :
    watching.checks.orphanPartial = true ∧
      ∃ built : RenderedBlock, (build watching none straying).blocks[1]? = some built ∧
        offendingNames [built.markup.markup] = ["_X", "Y"] ∧
        (build watching none straying).warnings.filterMap (orphanNamed? 1) = ["X", "Y"] := by
  have hmarked : (build watching none straying).blocks[1]?.map
      (fun built : RenderedBlock => offendingNames [built.markup.markup]) = some ["_X", "Y"] := by
    decide +kernel
  obtain ⟨built, hbuilt, hnames⟩ := Option.map_eq_some_iff.mp hmarked
  have hreported := offending_names_reported watching none straying rfl hbuilt
  rw [hnames] at hreported
  exact ⟨rfl, built, hbuilt, hnames, hreported.symm⟩

end WebIdl.Document
