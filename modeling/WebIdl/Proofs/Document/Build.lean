import WebIdl.Document.Basic

/-!
# The blocks of a built document

Every block of a document is rendered by itself, with one resolver, one anchor plan and one report
for all of them (`Document.blocks_build`). What the host and the checks say of a block is on its
outermost element and leaves the nodes in it alone (`Document.children_renderBlock`). The warnings of
a document are those of the checks, of ambiguous lookups and of references, in this order, and each
kind has a code of its own (`Document.warnings_build`).
-/

namespace WebIdl.Document

theorem zipIdx_zip_map {α β γ : Type} (f : α → β) (g : (α × β) × Nat → γ) (xs : List α)
    (start : Nat) :
    ((xs.zip (xs.map f)).zipIdx start).map g =
      (xs.zipIdx start).map fun entry => g ((entry.1, f entry.1), entry.2) := by
  induction xs generalizing start with
  | nil => rfl
  | cons x xs ih => simp [ih]

/-- What the names of a document are resolved with in the end. -/
def resolver (settings : Settings) (provider : Option Xref.Provider) (input : DocumentInput) :
    Resolver :=
  let here := localResolver settings input (readBlocks input)
  { here with xref := lookUp settings provider here input (readBlocks input) }

/-- Which definition carries each id. -/
def plan (input : DocumentInput) : Anchor.Plan := .ofBlocks ((readBlocks input).map (·.definitions))

/-- What the checks have found. -/
def report (settings : Settings) (provider : Option Xref.Provider) (input : DocumentInput) :
    Lint.Report :=
  Lint.check (resolver settings provider input).catalog (readBlocks input) settings.checks
    fun block name => (((resolver settings provider input).withCite
      (((input.blocks.map (·.cite))[block]?).getD [])).type? name).isSome

theorem blocks_build (settings : Settings) (provider : Option Xref.Provider)
    (input : DocumentInput) :
    (build settings provider input).blocks = input.blocks.zipIdx.map fun entry =>
      renderBlock (resolver settings provider input) (plan input) (report settings provider input)
        entry.1 (Block.parse entry.1.source entry.1.id) entry.2 := by
  simp only [build, resolver, plan, report]
  rw [readBlocks, zipIdx_zip_map]

/-! ### Warnings -/

theorem warnings_build (settings : Settings) (provider : Option Xref.Provider)
    (input : DocumentInput) :
    (build settings provider input).warnings =
      (report settings provider input).warnings ++
        (resolver settings provider input).xref.ambiguities.map
          (fun found => ambiguityWarning found.1 found.2) ++
        unresolvedWarnings (build settings provider input).references := rfl

theorem code_of_mem_report {settings : Settings} {provider : Option Xref.Provider}
    {input : DocumentInput} {warning : Diagnostic}
    (h : warning ∈ (report settings provider input).warnings) :
    warning.code = some "orphan-partial" := by
  unfold report Lint.check at h
  dsimp only at h
  split at h
  · obtain ⟨fragment, -, rfl⟩ := List.mem_map.mp h
    rfl
  · cases h

theorem code_of_mem_unresolvedWarnings {references : List LinkedReference} {warning : Diagnostic}
    (h : warning ∈ unresolvedWarnings references) :
    warning.code = some "unresolved-reference" := by
  obtain ⟨reference, -, rfl⟩ := List.mem_map.mp h
  rfl

theorem code_of_mem_ambiguities {table : Xref.Table} {warning : Diagnostic}
    (h : warning ∈ table.ambiguities.map fun found => ambiguityWarning found.1 found.2) :
    warning.code = some "xref-ambiguous" := by
  obtain ⟨found, -, rfl⟩ := List.mem_map.mp h
  rfl

/-- The warnings of one code. -/
theorem filter_eq_self_of_code {warnings : List Diagnostic} {code : String}
    (h : ∀ warning ∈ warnings, warning.code = some code) :
    warnings.filter (fun warning => warning.code == some code) = warnings := by
  rw [List.filter_eq_self]
  intro warning hwarning
  simp [h warning hwarning]

theorem filter_eq_nil_of_code {warnings : List Diagnostic} {code other : String}
    (h : ∀ warning ∈ warnings, warning.code = some code) (hne : code ≠ other) :
    warnings.filter (fun warning => warning.code == some other) = [] := by
  rw [List.filter_eq_nil_iff]
  intro warning hwarning
  simp [h warning hwarning, hne]

/-! ### Elements of blocks -/

/-- What one class leaves alone in an element, any number of classes do. -/
theorem foldl_addClass {β : Type} {f : Element → β} (h : ∀ markup c, f (markup.addClass c) = f markup)
    (classes : List String) (markup : Element) :
    f (classes.foldl Element.addClass markup) = f markup := by
  induction classes generalizing markup with
  | nil => rfl
  | cons c classes ih => exact (ih (markup.addClass c)).trans (h markup c)

theorem children_renderBlock (resolver : Resolver) (plan : Anchor.Plan) (report : Lint.Report)
    (input : BlockInput) (block : Block) (index : Nat) :
    (renderBlock resolver plan report input block index).markup.children =
      (Rendering.block ⟨resolver.withCite input.cite, plan, resolver.claims⟩ block index).children := by
  unfold renderBlock markOffending dress
  cases report.verdict? index <;> cases input.id <;>
    exact foldl_addClass (f := Element.children) (fun _ _ => rfl) ..

end WebIdl.Document
