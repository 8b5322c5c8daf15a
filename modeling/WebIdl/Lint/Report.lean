import WebIdl.Lint.Rules

/-!
# Reports

The findings of all rules that are checked, in the order of the rules, and the verdict on each
block: none if nothing is wrong with it, and otherwise the first finding in it with the messages of
all.
-/

namespace WebIdl.Lint

structure Report where
  /-- One verdict for each block. -/
  verdicts : List (Option Diagnostic)
  findings : List Finding
  warnings : List Diagnostic
deriving DecidableEq

/-- Findings that count only if their rule is checked. -/
def when (checked : Bool) (findings : List Finding) : List Finding :=
  if checked then findings else []

def findings (catalog : Catalog) (blocks : List Block) (checks : Checks) : List Finding :=
  syntaxErrors blocks
    ++ when checks.requireExposed (unexposed catalog)
    ++ when checks.dictArgDefault (dictArguments catalog)
    ++ when checks.duplicateMember (duplicateMembers catalog)
    ++ when checks.duplicateDefinition (duplicateDefinitions catalog)

/-- The verdict on a block. -/
def verdict (findings : List Finding) (block : Nat) : Option Diagnostic :=
  match (findings.filter (·.block == block)).map (·.diagnostic) with
  | [] => none
  | first :: rest =>
    some { first with message := "\n".intercalate ((first :: rest).map (·.message)) }

/-- Checks a document; `known` says which names a block may extend that are not in the catalog. -/
def check (catalog : Catalog) (blocks : List Block) (checks : Checks)
    (known : Nat → String → Bool) : Report :=
  let found := findings catalog blocks checks
  { verdicts := (List.range blocks.length).map (verdict found)
    findings := found
    warnings := if checks.orphanPartial then orphanWarnings catalog known else [] }

namespace Report

def verdict? (report : Report) (block : Nat) : Option Diagnostic := report.verdicts[block]?.join

/-- The blocks in which something is wrong. -/
def flagged (report : Report) : List Nat :=
  report.verdicts.zipIdx.filterMap fun (verdict, block) => verdict.map fun _ => block

def isValid (report : Report) : Bool := report.verdicts.all (·.isNone)

end Report

end WebIdl.Lint
