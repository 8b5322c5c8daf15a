import WebIdl.Lint.Report
import WebIdl.Proofs.Catalog.Fragments
import WebIdl.Proofs.Lint.DictArguments
import WebIdl.Proofs.Lint.Exposed
import WebIdl.Proofs.Lint.Repeats

/-!
# What a report says

A report groups the findings of the rules by blocks. The findings go through the verdicts one by
one, and each adds its message to the verdict on its block.

* `Lint.enter`, `Lint.verdicts_eq_foldl` — the verdicts are what entering the findings in order
  makes of verdicts that say nothing.
* `Lint.OfRule` — the findings of a rule are in blocks of the document, and have the code of the
  rule.
* `Report.Consistent`, `Report.IsPart` — what verdicts and findings say of each other, and what is
  left of a report if fewer rules are checked.
* `Lint.report_consistent` — so it is for every document and every choice of rules.
-/

namespace WebIdl

namespace Lint

/-! ### Entering findings -/

/-- A verdict with one more diagnostic, of which the message goes on a new line. -/
def extend : Option Diagnostic → Diagnostic → Option Diagnostic
  | none, d => some d
  | some first, d => some { first with message := first.message ++ "\n" ++ d.message }

/-- Enters a finding in the verdict on its block. -/
def enter (verdicts : List (Option Diagnostic)) (finding : Finding) : List (Option Diagnostic) :=
  verdicts.modify finding.block (extend · finding.diagnostic)

/-- What was found in a block. -/
def ofBlock (findings : List Finding) (block : Nat) : List Diagnostic :=
  (findings.filter (·.block == block)).map (·.diagnostic)

theorem ofBlock_append (xs ys : List Finding) (block : Nat) :
    ofBlock (xs ++ ys) block = ofBlock xs block ++ ofBlock ys block := by
  rw [ofBlock, List.filter_append, List.map_append, ofBlock, ofBlock]

theorem foldl_extend_some (first : Diagnostic) (ds : List Diagnostic) :
    ds.foldl extend (some first) =
      some { first with message := "\n".intercalate ((first :: ds).map (·.message)) } := by
  induction ds generalizing first with
  | nil => simp
  | cons d ds ih =>
    rw [List.foldl_cons, extend, ih]
    cases ds with
    | nil => simp
    | cons e es => simp [String.append_assoc]

/-- The verdict on a block is what its findings make of no verdict. -/
theorem verdict_eq_foldl (findings : List Finding) (block : Nat) :
    verdict findings block = (ofBlock findings block).foldl extend none := by
  unfold verdict ofBlock
  split
  · rename_i hnone
    rw [hnone, List.foldl_nil]
  · rename_i first rest hsome
    rw [hsome, List.foldl_cons, extend, foldl_extend_some]

theorem getElem?_enter (verdicts : List (Option Diagnostic)) (finding : Finding) (block : Nat) :
    (enter verdicts finding)[block]? = verdicts[block]?.map fun verdict =>
      (ofBlock [finding] block).foldl extend verdict := by
  rw [enter, List.getElem?_modify]
  by_cases hblock : finding.block = block
  · cases verdicts[block]? <;> simp [ofBlock, hblock]
  · simp [ofBlock, hblock]

/-- Entering findings one by one adds to each verdict those in its block, in order. -/
theorem getElem?_foldl_enter (verdicts : List (Option Diagnostic)) (findings : List Finding)
    (block : Nat) :
    (findings.foldl enter verdicts)[block]? = verdicts[block]?.map fun verdict =>
      (ofBlock findings block).foldl extend verdict := by
  induction findings generalizing verdicts with
  | nil => simp [ofBlock]
  | cons finding findings ih =>
    have hsplit : ofBlock (finding :: findings) block =
        ofBlock [finding] block ++ ofBlock findings block := ofBlock_append [finding] findings block
    rw [List.foldl_cons, ih, getElem?_enter, hsplit, Option.map_map]
    simp only [List.foldl_append, Function.comp_def]

theorem verdicts_eq_foldl (findings : List Finding) (size : Nat) :
    (List.range size).map (verdict findings) = findings.foldl enter (List.replicate size none) := by
  apply List.ext_getElem?
  intro block
  rw [getElem?_foldl_enter]
  by_cases hblock : block < size
  · simp [hblock, verdict_eq_foldl]
  · simp [hblock]

/-! ### The findings of each rule -/

/-- Errors with the code of a rule, in the blocks of definitions. -/
def OfRule (catalog : Catalog) (code : String) (findings : List Finding) : Prop :=
  ∀ finding ∈ findings, ∃ fragment ∈ catalog.fragments, ∃ message member,
    finding = .error fragment.block code message member

theorem exists_of_mem_syntaxErrors {blocks : List Block} {finding : Finding}
    (h : finding ∈ syntaxErrors blocks) :
    ∃ block stop, blocks[finding.block]? = some block ∧ block.stop = some stop ∧
      finding.diagnostic = stop.error.diagnostic := by
  obtain ⟨⟨block, index⟩, hblock, hfinding⟩ := List.mem_flatMap.mp h
  obtain ⟨d, hd, rfl⟩ := List.mem_map.mp hfinding
  have hmem : d ∈ block.diagnostics := List.mem_of_find?_eq_some (Option.mem_toList.mp hd)
  obtain ⟨stop, hstop, rfl⟩ := Option.map_eq_some_iff.mp (Option.mem_toList.mp hmem)
  exact ⟨block, stop, List.mem_zipIdx_iff_getElem?.mp hblock, hstop, rfl⟩

theorem mem_syntaxErrors {blocks : List Block} {index : Nat} {block : Block} {stop : Stop}
    (hblock : blocks[index]? = some block) (hstop : block.stop = some stop) :
    ⟨index, stop.error.diagnostic⟩ ∈ syntaxErrors blocks := by
  have hd : block.diagnostics.find? (·.isError) = some stop.error.diagnostic := by
    rw [Block.diagnostics, hstop]
    rfl
  apply List.mem_flatMap.mpr
  exact ⟨(block, index), List.mem_zipIdx_iff_getElem?.mpr hblock, by simp [hd]⟩

section Rules

variable (catalog : Catalog)

theorem ofRule_unexposed : OfRule catalog "require-exposed" (unexposed catalog) := by
  intro finding h
  rw [unexposed_eq] at h
  obtain ⟨fragment, hfragment, rfl⟩ := List.mem_map.mp h
  exact ⟨fragment, (List.mem_filter.mp hfragment).1, _, _, rfl⟩

theorem ofRule_dictArguments : OfRule catalog "dict-arg-default" (dictArguments catalog) := by
  intro finding h
  rw [dictArguments_eq] at h
  obtain ⟨⟨fragment, owner, a⟩, hlisted, hfinding⟩ := List.mem_filterMap.mp h
  obtain ⟨f, hf, hmem⟩ := List.mem_flatMap.mp hlisted
  obtain ⟨entry, -, hentry⟩ := List.mem_map.mp hmem
  obtain ⟨rfl, rfl⟩ := Prod.mk.inj hentry
  by_cases hlacks : catalog.LacksDefault a
  · have hexists : ∃ found, argumentFinding? catalog f owner a = some found ∧
        Reports catalog found f owner a := exists_argumentFinding? hlacks
    obtain ⟨_, hfound, d, -, rfl⟩ := hexists
    exact ⟨f, hf, _, _, Option.some.inj (hfinding.symm.trans hfound)⟩
  · cases (argumentFinding?_eq_none hlacks).symm.trans hfinding

theorem exists_of_mem_repeated {members : List (Nat × Member)} {entry : Nat × String}
    (h : entry ∈ repeated members) : ∃ member ∈ members, member.1 = entry.1 := by
  obtain ⟨⟨member, i⟩, hmember, hentry⟩ := List.mem_filterMap.mp h
  have hcounted := (Option.filter_eq_some_iff.mp hentry).1
  obtain ⟨name, -, rfl⟩ := Option.map_eq_some_iff.mp hcounted
  exact ⟨member, List.fst_mem_of_mem_zipIdx hmember, rfl⟩

theorem ofRule_duplicateMembers :
    OfRule catalog "duplicate-member" (duplicateMembers catalog) := by
  intro finding h
  rw [duplicateMembers_eq] at h
  obtain ⟨container, -, hfinding⟩ := List.mem_flatMap.mp h
  obtain ⟨⟨block, name⟩, hentry, rfl⟩ := List.mem_map.mp hfinding
  obtain ⟨member, hmember, hblock⟩ := exists_of_mem_repeated hentry
  obtain ⟨part, hpart, hmem⟩ := List.mem_flatMap.mp hmember
  obtain ⟨m, -, rfl⟩ := List.mem_map.mp hmem
  obtain rfl : part.block = block := hblock
  exact ⟨part, Catalog.mem_fragments_of_mem_merged hpart, _, _, rfl⟩

theorem mem_of_mem_redefinitions {first : List (String × Nat)} {fragments : List Fragment}
    {entry : Fragment × Nat} (h : entry ∈ redefinitions first fragments) :
    entry.1 ∈ fragments := by
  fun_induction redefinitions first fragments with
  | case1 => cases h
  | case2 first fragment rest hbase block hblock ih =>
    rcases List.mem_cons.mp h with rfl | h
    · exact List.mem_cons_self
    · exact List.mem_cons_of_mem _ (ih h)
  | case3 first fragment rest hbase hnone ih => exact List.mem_cons_of_mem _ (ih h)
  | case4 first fragment rest hbase ih => exact List.mem_cons_of_mem _ (ih h)

theorem ofRule_duplicateDefinitions :
    OfRule catalog "duplicate-definition" (duplicateDefinitions catalog) := by
  intro finding h
  obtain ⟨entry, hentry, rfl⟩ := List.mem_map.mp h
  exact ⟨entry.1, mem_of_mem_redefinitions hentry, _, _, rfl⟩

end Rules

/-! ### Reports -/

namespace Checks

/-- The codes of the rules that are checked. -/
def codes (checks : Checks) : List String :=
  ([("require-exposed", checks.requireExposed), ("dict-arg-default", checks.dictArgDefault),
    ("duplicate-member", checks.duplicateMember),
    ("duplicate-definition", checks.duplicateDefinition),
    ("orphan-partial", checks.orphanPartial)].filter (·.2)).map (·.1)

theorem contains_codes (checks : Checks) :
    checks.codes.contains "require-exposed" = checks.requireExposed ∧
      checks.codes.contains "dict-arg-default" = checks.dictArgDefault ∧
      checks.codes.contains "duplicate-member" = checks.duplicateMember ∧
      checks.codes.contains "duplicate-definition" = checks.duplicateDefinition := by
  obtain ⟨exposed, default, member, definition, orphan⟩ := checks
  revert exposed default member definition orphan
  decide

/-- A finding counts if it is a syntax error or comes from a rule that is checked. -/
def keeps (checks : Checks) (finding : Finding) : Bool :=
  finding.diagnostic.code.any fun code => code == "syntax-error" || checks.codes.contains code

end Checks

namespace Report

/-- What the verdicts of a report on some blocks say of its findings. -/
structure Consistent (report : Report) (blocks : List Block) : Prop where
  length_verdicts : report.verdicts.length = blocks.length
  /-- No finding is in another block. -/
  block_lt : ∀ finding ∈ report.findings, finding.block < blocks.length
  /-- The verdicts are what entering the findings one by one leads to. -/
  verdicts_eq : report.verdicts = report.findings.foldl enter (blocks.map fun _ => none)
  verdict?_eq_none_iff (block : Nat) :
    report.verdict? block = none ↔ ∀ finding ∈ report.findings, finding.block ≠ block
  verdict?_eq_some (block : Nat) (first : Diagnostic) (rest : List Diagnostic) :
    ofBlock report.findings block = first :: rest →
      report.verdict? block =
        some { first with message := "\n".intercalate ((first :: rest).map (·.message)) }
  /-- A syntax error comes first in its block. -/
  verdict?_of_hasErrors (index : Nat) (block : Block) :
    blocks[index]? = some block → block.hasErrors = true →
      ∃ d, report.verdict? index = some d ∧ d.code = some "syntax-error"

/-- A report is what is left of another if some of the rules are not checked. -/
structure IsPart (report full : Report) (checks : Checks) : Prop where
  findings_eq : report.findings = full.findings.filter checks.keeps
  warnings_eq : report.warnings = if checks.orphanPartial then full.warnings else []

end Report

section Rules

variable {catalog : Catalog} {code : String} {found : List Finding}

theorem OfRule.block_lt {blocks : List Block}
    (h : OfRule (.ofBlocks (blocks.map (·.definitions))) code found) :
    ∀ finding ∈ found, finding.block < blocks.length := by
  intro finding hfinding
  obtain ⟨fragment, hfragment, message, member, rfl⟩ := h finding hfinding
  rw [Catalog.fragments_ofBlocks] at hfragment
  obtain ⟨⟨place, d⟩, hplaced, rfl⟩ := List.mem_map.mp hfragment
  obtain ⟨⟨definitions, block⟩, hblock, hmem⟩ := List.mem_flatMap.mp hplaced
  obtain ⟨⟨_, index⟩, -, heq⟩ := List.mem_map.mp hmem
  obtain ⟨rfl, rfl⟩ := Prod.mk.inj heq
  have hget := List.mem_zipIdx_iff_getElem?.mp hblock
  have hlt := (List.getElem?_eq_some_iff.mp hget).1
  rwa [List.length_map] at hlt

/-- Of the findings of a rule, all or none are kept. -/
theorem OfRule.filter_keeps (h : OfRule catalog code found) {checks : Checks} {checked : Bool}
    (hne : code ≠ "syntax-error") (hkept : checks.codes.contains code = checked) :
    found.filter checks.keeps = when checked found := by
  have hall : ∀ finding ∈ found, checks.keeps finding = checked := by
    intro finding hfinding
    obtain ⟨fragment, -, message, member, rfl⟩ := h finding hfinding
    show (code == "syntax-error" || checks.codes.contains code) = checked
    rw [beq_false_of_ne hne, Bool.false_or, hkept]
  cases checked with
  | true => exact List.filter_eq_self.mpr hall
  | false =>
    exact List.filter_eq_nil_iff.mpr fun finding hfinding => by simp [hall finding hfinding]

end Rules

theorem filter_keeps_syntaxErrors (blocks : List Block) (checks : Checks) :
    (syntaxErrors blocks).filter checks.keeps = syntaxErrors blocks := by
  apply List.filter_eq_self.mpr
  intro finding h
  obtain ⟨block, stop, -, -, hd⟩ := exists_of_mem_syntaxErrors h
  rw [Checks.keeps, hd]
  rfl

/-- The findings with some rules left out are those of all rules, less those with other codes. -/
theorem findings_eq_filter (catalog : Catalog) (blocks : List Block) (checks : Checks) :
    findings catalog blocks checks =
      (findings catalog blocks .all).filter checks.keeps := by
  have hall : findings catalog blocks .all =
      syntaxErrors blocks ++ unexposed catalog ++ dictArguments catalog
        ++ duplicateMembers catalog ++ duplicateDefinitions catalog := rfl
  obtain ⟨hexposed, hdefault, hmember, hdefinition⟩ := checks.contains_codes
  rw [hall, List.filter_append, List.filter_append, List.filter_append, List.filter_append,
    filter_keeps_syntaxErrors, (ofRule_unexposed catalog).filter_keeps (by decide) hexposed,
    (ofRule_dictArguments catalog).filter_keeps (by decide) hdefault,
    (ofRule_duplicateMembers catalog).filter_keeps (by decide) hmember,
    (ofRule_duplicateDefinitions catalog).filter_keeps (by decide) hdefinition]
  rfl

section Check

variable {blocks : List Block} {checks : Checks} {known : Nat → String → Bool}

theorem block_lt_of_mem_findings {finding : Finding}
    (h : finding ∈ findings (.ofBlocks (blocks.map (·.definitions))) blocks checks) :
    finding.block < blocks.length := by
  rw [findings_eq_filter] at h
  have hall := (List.mem_filter.mp h).1
  simp only [findings, List.mem_append] at hall
  rcases hall with (((herror | hexposed) | hdefault) | hmember) | hdefinition
  · obtain ⟨block, stop, hblock, -⟩ := exists_of_mem_syntaxErrors herror
    exact (List.getElem?_eq_some_iff.mp hblock).1
  · exact (ofRule_unexposed _).block_lt finding hexposed
  · exact (ofRule_dictArguments _).block_lt finding hdefault
  · exact (ofRule_duplicateMembers _).block_lt finding hmember
  · exact (ofRule_duplicateDefinitions _).block_lt finding hdefinition

theorem ofBlock_eq_nil_iff {findings : List Finding} {block : Nat} :
    ofBlock findings block = [] ↔ ∀ finding ∈ findings, finding.block ≠ block := by
  simp [ofBlock]

/-- The verdict on a block beyond the last would be one on no findings. -/
theorem verdict?_check (block : Nat) :
    let report := check (.ofBlocks (blocks.map (·.definitions))) blocks checks known
    report.verdict? block = (ofBlock report.findings block).foldl extend none := by
  intro report
  have hget : report.verdicts[block]? =
      ((List.range blocks.length)[block]?).map (verdict report.findings) := List.getElem?_map
  by_cases hblock : block < blocks.length
  · rw [Report.verdict?, hget, List.getElem?_range hblock, Option.map_some, Option.join_some,
      verdict_eq_foldl]
  · have hnone : ofBlock report.findings block = [] := by
      apply ofBlock_eq_nil_iff.mpr
      intro finding hfinding
      have hlt := block_lt_of_mem_findings hfinding
      omega
    rw [hnone, Report.verdict?, hget, List.getElem?_eq_none (by simpa using hblock)]
    rfl

theorem verdict?_of_ofBlock {block : Nat} {first : Diagnostic} {rest : List Diagnostic}
    (h : ofBlock (findings (.ofBlocks (blocks.map (·.definitions))) blocks checks) block =
      first :: rest) :
    (check (.ofBlocks (blocks.map (·.definitions))) blocks checks known).verdict? block =
      some { first with message := "\n".intercalate ((first :: rest).map (·.message)) } := by
  rw [verdict?_check, check, h, List.foldl_cons, extend, foldl_extend_some]

/-- A syntax error comes before all else that is found in its block. -/
theorem ofBlock_findings (checks : Checks) (catalog : Catalog) {index : Nat} {block : Block}
    {stop : Stop} (hblock : blocks[index]? = some block) (hstop : block.stop = some stop) :
    ∃ first rest, ofBlock (findings catalog blocks checks) index = first :: rest ∧
      first.code = some "syntax-error" := by
  have hmem : stop.error.diagnostic ∈ ofBlock (syntaxErrors blocks) index := by
    apply List.mem_map.mpr
    exact ⟨_, List.mem_filter.mpr ⟨mem_syntaxErrors hblock hstop, by simp⟩, rfl⟩
  obtain ⟨first, rest, hfirst⟩ := List.exists_cons_of_ne_nil (List.ne_nil_of_mem hmem)
  have hcode : first.code = some "syntax-error" := by
    have hfound : first ∈ ofBlock (syntaxErrors blocks) index := by
      rw [hfirst]
      exact List.mem_cons_self
    obtain ⟨finding, hfinding, rfl⟩ := List.mem_map.mp hfound
    obtain ⟨_, _, -, -, hd⟩ := exists_of_mem_syntaxErrors (List.mem_filter.mp hfinding).1
    rw [hd]
    rfl
  have hall : ∃ more, findings catalog blocks checks = syntaxErrors blocks ++ more := by
    simp only [findings, List.append_assoc]
    exact ⟨_, rfl⟩
  obtain ⟨more, hall⟩ := hall
  exact ⟨first, rest ++ ofBlock more index, by rw [hall, ofBlock_append, hfirst]; rfl, hcode⟩

theorem consistent_check :
    (check (.ofBlocks (blocks.map (·.definitions))) blocks checks known).Consistent blocks where
  length_verdicts := by rw [check, List.length_map, List.length_range]
  block_lt := fun finding h => block_lt_of_mem_findings h
  verdicts_eq := by rw [List.map_const']; exact verdicts_eq_foldl _ _
  verdict?_eq_none_iff := by
    intro block
    rw [verdict?_check, ← ofBlock_eq_nil_iff]
    cases hfound : ofBlock _ block with
    | nil => simp
    | cons first rest => simp [extend, foldl_extend_some]
  verdict?_eq_some := fun _ _ _ hfound => verdict?_of_ofBlock hfound
  verdict?_of_hasErrors := by
    intro index block hblock herrors
    obtain ⟨stop, hstop⟩ := Option.isSome_iff_exists.mp herrors
    obtain ⟨first, rest, hfound, hcode⟩ :=
      ofBlock_findings checks (.ofBlocks (blocks.map (·.definitions))) hblock hstop
    exact ⟨_, verdict?_of_ofBlock hfound, hcode⟩

end Check

/-- **A report has one verdict for each block: none if nothing was found there, and otherwise the
first finding with the messages of all on lines of their own, a syntax error before all others.
Leaving out rules takes their findings away and nothing else.** -/
theorem report_consistent (blocks : List Block) (checks : Checks) (known : Nat → String → Bool) :
    let catalog := Catalog.ofBlocks (blocks.map (·.definitions))
    let report := check catalog blocks checks known
    report.Consistent blocks ∧ report.IsPart (check catalog blocks .all known) checks := by
  intro catalog report
  exact ⟨consistent_check, findings_eq_filter catalog blocks checks, rfl⟩

end Lint

end WebIdl
