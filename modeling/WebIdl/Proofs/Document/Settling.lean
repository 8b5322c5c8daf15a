import WebIdl.Proofs.Document.Build
import WebIdl.Proofs.Link.Types
import WebIdl.Proofs.Markup.Locality
import WebIdl.Proofs.Xref.Settling

/-!
# A document does not depend on the order of its lookups

The lookups of a document settle in an order that nobody decides. The document is built from the
table that they leave, of which it reads what each query resolved to and the ambiguous queries, and
these are the same in every order.

* `Document.buildWith` — a document as it is built from a table; `build` is that with the table that
  `prefetch` leaves.
* `Document.buildWith_congr` — what a document reads of the table.
* `Document.lookups_commute` — every run of the lookups records the same, and the same document is
  built from it.
-/

namespace WebIdl.Document

variable (settings : Settings) (input : DocumentInput) {table table' : Xref.Table}

/-! ### Building from a table -/

/-- What the names of a document are resolved with once the table is known. -/
def resolverWith (table : Xref.Table) : Resolver :=
  { localResolver settings input (readBlocks input) with xref := table }

/-- What the checks have found; the table tells which names a block may extend. -/
def reportWith (table : Xref.Table) : Lint.Report :=
  Lint.check (resolverWith settings input table).catalog (readBlocks input) settings.checks
    fun block name => (((resolverWith settings input table).withCite
      (((input.blocks.map (·.cite))[block]?).getD [])).type? name).isSome

/-- The document that is built from a table. -/
def buildWith (table : Xref.Table) : Document :=
  let definitions := (readBlocks input).map (·.definitions)
  let resolver := resolverWith settings input table
  let report := reportWith settings input table
  let references := input.references.map resolver.linkReference
  { blocks := (input.blocks.zip (readBlocks input)).zipIdx.map fun ((i, block), index) =>
      renderBlock resolver (plan input) report i block index
    terms := resolver.claims.designations
    references := references
    exports := ExportedTerm.all definitions (plan input) resolver.claims
    warnings := report.warnings
      ++ table.ambiguities.map (fun (query, entries) => ambiguityWarning query entries)
      ++ unresolvedWarnings references }

/-- Everything that a document asks for. -/
def asked : List Xref.Query :=
  queries (localResolver settings input (readBlocks input)) input (readBlocks input)

theorem build_eq_buildWith (provider : Option Xref.Provider) :
    build settings provider input = buildWith settings input
      (lookUp settings provider (localResolver settings input (readBlocks input)) input
        (readBlocks input)) := rfl

theorem build_of_xrefEnabled (provider : Xref.Provider) (hxref : settings.xrefEnabled = true) :
    build settings (some provider) input =
      buildWith settings input (Xref.prefetch provider (asked settings input) settings.limit) := by
  have htable : lookUp settings (some provider) (localResolver settings input (readBlocks input))
      input (readBlocks input) =
        Xref.prefetch provider (asked settings input) settings.limit := if_pos hxref
  rw [build_eq_buildWith, htable]

/-! ### What a document reads of a table -/

section Reads

variable (hget : ∀ query, table.get? query = table'.get? query)

include hget

theorem type?_resolverWith (cite : List String) (name : String) :
    ((resolverWith settings input table).withCite cite).type? name =
      ((resolverWith settings input table').withCite cite).type? name := by
  have hwith : (resolverWith settings input table).withCite cite =
      { (resolverWith settings input table').withCite cite with xref := table } := rfl
  rw [hwith]
  apply Resolver.type?_withXref
  intro _
  exact hget _

theorem reportWith_congr : reportWith settings input table = reportWith settings input table' := by
  unfold reportWith
  congr 1
  funext block name
  rw [type?_resolverWith settings input hget]

theorem linkReference_resolverWith (reference : ReferenceInput) :
    (resolverWith settings input table).linkReference reference =
      (resolverWith settings input table').linkReference reference := by
  have htype (name : String) : (resolverWith settings input table).type? name =
      (resolverWith settings input table').type? name :=
    type?_resolverWith settings input hget [] name
  unfold Resolver.linkReference Resolver.link?
  simp only [htype]
  rfl

theorem renderBlock_resolverWith (report : Lint.Report) (i : BlockInput) (block : Block)
    (index : Nat) :
    renderBlock (resolverWith settings input table) (plan input) report i block index =
      renderBlock (resolverWith settings input table') (plan input) report i block index := by
  have hblock :
      Rendering.block ⟨(resolverWith settings input table).withCite i.cite, plan input,
          (resolverWith settings input table).claims⟩ block index =
        Rendering.block ⟨(resolverWith settings input table').withCite i.cite, plan input,
          (resolverWith settings input table').claims⟩ block index := by
    apply Rendering.block_congr
    intro sites
    exact ⟨rfl, rfl, rfl, fun name _ _ => type?_resolverWith settings input hget i.cite name⟩
  rw [renderBlock, renderBlock, hblock]

/-- Two tables from which queries resolve alike, and of which the same queries are ambiguous, give
the same document. -/
theorem buildWith_congr (hambiguous : table.ambiguities = table'.ambiguities) :
    buildWith settings input table = buildWith settings input table' := by
  have hreferences : input.references.map (resolverWith settings input table).linkReference =
      input.references.map (resolverWith settings input table').linkReference :=
    List.map_congr_left fun reference _ => linkReference_resolverWith settings input hget reference
  unfold buildWith
  simp only [reportWith_congr settings input hget, hreferences, hambiguous,
    renderBlock_resolverWith settings input hget]
  rfl

end Reads

/-! ### Runs of the lookups -/

/-- **Lookups commute.** However often queries are asked and in whatever order their lookups settle,
that of `prefetch` among others, every distinct query is recorded once, with the outcome of what the
provider answers, and every failed query with its error; nothing of that depends on the order or on
the repeats, and neither does the document that is built from it. -/
theorem lookups_commute {provider : Xref.Provider} {limit : Nat} {queries queries' : List Xref.Query}
    (hsame : ∀ query, query ∈ queries ↔ query ∈ queries')
    (h : Xref.Settled provider limit queries table)
    (h' : Xref.Settled provider limit queries' table') :
    Xref.Settled provider limit queries (Xref.prefetch provider queries limit) ∧
    ((table.outcomes.map (·.1)).Nodup ∧
      ∀ key, table.outcome? key = if key ∈ queries then some (provider.outcome key) else none) ∧
    ((table.failures.map (·.1)).Nodup ∧
      ∀ query error, (query, error) ∈ table.failures ↔
        query ∈ queries ∧ provider.failure? limit query = some error) ∧
    (∀ key, table.outcome? key = table'.outcome? key ∧ table.get? key = table'.get? key) ∧
    table.size = table'.size ∧ table.ambiguities = table'.ambiguities ∧
    ∀ settings input, settings.xrefEnabled = true → settings.limit = limit →
      (∀ query, query ∈ asked settings input ↔ query ∈ queries) →
      build settings (some provider) input = buildWith settings input table := by
  refine ⟨Xref.settled_prefetch provider limit queries, ⟨h.nodup_keys, h.outcome?_eq⟩,
    ⟨h.nodup_failures, fun _ _ => h.mem_failures_iff⟩, ?_, h.size_eq hsame h',
    h.ambiguities_eq hsame h', ?_⟩
  · intro key
    exact ⟨h.outcome?_eq_outcome? hsame h' key, h.get?_eq hsame h' key⟩
  · intro settings input hxref hlimit hasked
    have hprefetch := Xref.settled_prefetch provider settings.limit (asked settings input)
    rw [build_of_xrefEnabled settings input provider hxref]
    rw [hlimit] at hprefetch ⊢
    exact buildWith_congr settings input (hprefetch.get?_eq hasked h)
      (hprefetch.ambiguities_eq hasked h)

/-! ### Lookups that settle in different ways -/

/-- An ambiguous name, one that fails, and others that are never answered. -/
def mixed : Xref.Provider := fun query =>
  if query.term = "Foo" then
    .candidates [⟨"https://a.example/#foo", "a", "", "interface"⟩,
      ⟨"https://b.example/#foo", "b", "", "enum"⟩]
  else if query.term = "Gone" then .failed (.unavailable "refused")
  else .silent

/-- Settings under which nothing is checked, and lookups have five milliseconds. -/
def hurried : Settings := ⟨"", true, 5, ⟨false, false, false, false, false⟩⟩

def named : DocumentInput :=
  .block .empty (.ofSource "typedef Foo A; typedef Gone B; typedef Slow C; typedef Foo D;")

def ask (term : String) : Xref.Query := ⟨term, .type, []⟩

theorem asked_named : asked hurried named = [ask "Foo", ask "Gone", ask "Slow", ask "Foo"] := by
  decide +kernel

/-- The lookups settle in an order that `prefetch` does not take, and the tables differ, but what is
built from them is the same. -/
theorem lookups_commute_mixed :
    let table := [ask "Gone", ask "Slow", ask "Foo"].foldl (Xref.settle mixed hurried.limit) .empty
    Xref.Settled mixed hurried.limit [ask "Slow", ask "Foo", ask "Gone"] table ∧
      (Xref.prefetch mixed (asked hurried named) hurried.limit).outcomes ≠ table.outcomes ∧
      (Xref.prefetch mixed (asked hurried named) hurried.limit).ambiguities = table.ambiguities ∧
      table.ambiguities ≠ [] ∧ (ask "Slow", .timeout 5000) ∈ table.failures ∧
      build hurried (some mixed) named = buildWith hurried named table := by
  intro table
  have hsettled : Xref.Settled mixed hurried.limit [ask "Slow", ask "Foo", ask "Gone"] table :=
    Xref.settled_of_perm (by decide +kernel)
  have hprefetch := Xref.settled_prefetch mixed hurried.limit (asked hurried named)
  have hasked (query : Xref.Query) :
      query ∈ [ask "Slow", ask "Foo", ask "Gone"] ↔ query ∈ asked hurried named := by
    rw [asked_named]
    simp only [List.mem_cons, List.not_mem_nil, or_false]
    tauto
  obtain ⟨-, -, -, -, -, hambiguous, hbuild⟩ := lookups_commute hasked hsettled hprefetch
  refine ⟨hsettled, ?_, hambiguous.symm, ?_, ?_, ?_⟩
  · rw [asked_named]
    decide +kernel
  · show Xref.Table.ambiguities _ ≠ []
    decide +kernel
  · show _ ∈ Xref.Table.failures _
    decide +kernel
  · exact hbuild hurried named rfl rfl fun query => (hasked query).symm

end WebIdl.Document
