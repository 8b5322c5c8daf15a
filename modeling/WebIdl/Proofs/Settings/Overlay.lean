import WebIdl.Settings.Path

/-!
# One setting over another

A value that is set at a path changes one entry of the outermost table, its section. What a section
becomes is told by what the same value makes of nothing: an entry that is a single value there is
the entry of the section, and an entry that is not there at all is left as it was.

* `Setting.item?`, `SettingPath.item?_set` — the entries of a table after a value was set in it.
* `Setting.item?_putAll` — the entries of a table after those of another were set in it.
* `Setting.Overlay` — what a table alone says of a name is so in a section it is laid over;
  `Overlay.put` and `Overlay.putAll` say that setting a value in both keeps that.
* `SettingPath.overlay_into` — so it is with a value that is set at a path.
-/

namespace WebIdl

namespace Setting

variable {entries : List (String × Setting)} {value alone before after : Setting}
  {name key : String}

/-- The entry of a table, if there is one; anything else has no entries. -/
def item? (name : String) (root : Setting) : Option Setting := root.entries.lookup name

/-- The value is a truth value, a number or a text. -/
def IsScalar : Setting → Prop
  | .boolean _ | .integer _ | .float _ | .text _ => True
  | .nil | .list _ | .table _ => False

def IsTable : Setting → Prop
  | .table _ => True
  | _ => False

instance : DecidablePred IsTable
  | .table _ => isTrue trivial
  | .nil | .boolean _ | .integer _ | .float _ | .text _ | .list _ => isFalse id

theorem IsTable.not_isScalar (h : value.IsTable) : ¬value.IsScalar := by
  cases value with
  | table => exact id
  | _ => cases h

/-! ### Entries -/

theorem lookup_change (f : Option Setting → Setting) :
    (change key f entries).lookup name =
      if name = key then some (f (entries.lookup name)) else entries.lookup name := by
  induction entries with
  | nil =>
    by_cases hname : name = key
    · simp [change, hname]
    · simp [change, hname]
  | cons entry entries ih =>
    obtain ⟨k, value⟩ := entry
    rw [change]
    by_cases hname : name = k
    · subst hname
      by_cases hk : name = key
      · simp [hk]
      · simp [hk]
    · have htest : (name == k) = false := beq_eq_false_iff_ne.mpr hname
      by_cases hk : k = key
      · subst hk
        simp [List.lookup_cons, htest, hname]
      · simp only [if_neg hk, List.lookup_cons, htest, ih]

/-- What a value makes of the one that stands in its place. -/
def laid (value : Setting) (old : Option Setting) : Setting :=
  match value with
  | .table incoming => putAll incoming (old.getD (.table []))
  | value => value

theorem put_eq (key : String) (value root : Setting) :
    put key value root = .table (update key (laid value) root.entries) := by
  cases value <;> rfl

theorem item?_update (key : String) (f : Option Setting → Setting) (root : Setting) :
    (Setting.table (update key f root.entries)).item? name =
      if name = Text.lower key then some (f (root.item? name)) else root.item? name :=
  lookup_change f

theorem item?_put (key : String) (value root : Setting) :
    (put key value root).item? name =
      if name = Text.lower key then some (laid value (root.item? name)) else root.item? name := by
  rw [put_eq, item?_update]

theorem laid_of_not_isTable (h : ¬value.IsTable) (old : Option Setting) :
    laid value old = value := by
  cases value with
  | table => exact absurd trivial h
  | _ => rfl

/-- The value of the last of the entries whose key is the name but for its case. -/
def lastAt (name : String) (entries : List (String × Setting)) : Option Setting :=
  entries.reverse.findSome? fun (key, value) => if name = Text.lower key then some value else none

theorem lastAt_append (name : String) (entries more : List (String × Setting)) :
    lastAt name (entries ++ more) = (lastAt name more).or (lastAt name entries) := by
  rw [lastAt, List.reverse_append, List.findSome?_append]
  rfl

/-- **Entries that are set one after the other leave the last one of a name, or what was there.** -/
theorem item?_putAll (h : ∀ entry ∈ entries, name = Text.lower entry.1 → ¬entry.2.IsTable)
    (root : Setting) :
    (putAll entries root).item? name = (lastAt name entries).or (root.item? name) := by
  induction entries generalizing root with
  | nil => rfl
  | cons entry entries ih =>
    obtain ⟨key, value⟩ := entry
    obtain ⟨hvalue, hentries⟩ := List.forall_mem_cons.mp h
    -- the entries that follow go over this one, which goes over what was there
    rw [putAll, ih hentries, item?_put, ← List.singleton_append, lastAt_append, Option.or_assoc]
    congr 1
    by_cases hname : name = Text.lower key
    · rw [if_pos hname, laid_of_not_isTable (hvalue hname)]
      simp [lastAt, hname]
    · simp [lastAt, hname]

/-! ### Tables stay tables -/

theorem isTable_put (key : String) (value root : Setting) : (put key value root).IsTable := by
  rw [put_eq]
  trivial

theorem isTable_putAll {incoming : List (String × Setting)} {root : Setting}
    (h : incoming ≠ [] ∨ root.IsTable) : (putAll incoming root).IsTable := by
  induction incoming generalizing root with
  | nil => exact h.resolve_left (fun hne => hne rfl)
  | cons entry incoming ih => exact ih (.inr (isTable_put entry.1 entry.2 root))

/-- A single value that is left by another one is the other one, or was there before it. -/
theorem laid_eq_of_isScalar {old old' : Option Setting} (h : (laid value old).IsScalar)
    (hold : ∀ v, old = some v → v.IsScalar → old' = some v) :
    laid value old' = laid value old := by
  cases value with
  | table incoming =>
    cases incoming with
    | nil =>
      cases old with
      | none => cases h
      | some v =>
        obtain rfl := hold v rfl h
        rfl
    | cons entry incoming =>
      exact absurd h (isTable_putAll (.inl (List.cons_ne_nil _ _))).not_isScalar
  | _ => rfl

/-! ### Overlays -/

/-- What `alone` says of a name is so in `after`, and where it says nothing, `after` is as `before`
was. -/
structure Overlay (name : String) (alone before after : Setting) : Prop where
  absent : alone.item? name = none → after.item? name = before.item? name
  given : ∀ v, alone.item? name = some v → v.IsScalar → after.item? name = some v

namespace Overlay

theorem of_empty (halone : alone.item? name = none)
    (hafter : after.item? name = before.item? name) :
    Overlay name alone before after where
  absent _ := hafter
  given v h := by rw [halone] at h; cases h

theorem put (h : Overlay name alone before after) (key : String) (value : Setting) :
    Overlay name (put key value alone) before (put key value after) := by
  by_cases hname : name = Text.lower key
  · constructor
    · intro hnone
      rw [item?_put, if_pos hname] at hnone
      cases hnone
    · intro v hv hscalar
      rw [item?_put, if_pos hname] at hv
      obtain rfl := Option.some.inj hv
      rw [item?_put, if_pos hname, laid_eq_of_isScalar hscalar h.given]
  · constructor
    · rw [item?_put, item?_put, if_neg hname, if_neg hname]
      exact h.absent
    · rw [item?_put, item?_put, if_neg hname, if_neg hname]
      exact h.given

theorem putAll (h : Overlay name alone before after) (incoming : List (String × Setting)) :
    Overlay name (putAll incoming alone) before (putAll incoming after) := by
  induction incoming generalizing alone after with
  | nil => exact h
  | cons entry incoming ih => exact ih (h.put entry.1 entry.2)

end Overlay

end Setting

/-! ### Values at paths -/

namespace SettingPath

open Setting

variable {path : SettingPath} {value old : Setting} {name : String}

/-- What the section that a path leads to becomes, when a value is set at the path. -/
def into (path : SettingPath) (value : Setting) (old : Option Setting) : Setting :=
  match path.steps with
  | [] => laid value old
  | step :: steps => setFrom value (step :: steps) (old.getD .nil)

theorem item?_set (path : SettingPath) (value root : Setting) :
    (path.set value root).item? name =
      if name = Text.lower path.root then some (path.into value (root.item? name))
      else root.item? name := by
  obtain ⟨first, steps⟩ := path
  cases steps with
  | nil => exact item?_put first value root
  | cons step steps => exact item?_update first _ root

/-- Where more steps follow, no single value can stand. -/
theorem not_isScalar_setFrom (step : Step) (steps : List Step) (value here : Setting) :
    ¬(setFrom value (step :: steps) here).IsScalar := by
  cases step with
  | key name =>
    cases steps with
    | nil => exact (isTable_put name value here).not_isScalar
    | cons next steps => exact id
  | index position => exact id

theorem isTable_into {old : Option Setting} (h : (path.into value none).IsTable)
    (hold : ∀ s, old = some s → s.IsTable) : (path.into value old).IsTable := by
  obtain ⟨first, steps⟩ := path
  cases steps with
  | nil =>
    cases value with
    | table incoming =>
      refine isTable_putAll (.inr ?_)
      cases old with
      | none => exact trivial
      | some s => exact hold s rfl
    | _ => cases h
  | cons step steps =>
    cases step with
    | key name =>
      cases steps with
      | nil => exact isTable_put name value _
      | cons next steps => exact trivial
    | index position => cases h

/-- **A value that makes a table of nothing is laid over a section.** -/
theorem overlay_into (h : (path.into value none).IsTable) (old : Option Setting) :
    Overlay name (path.into value none) (old.getD (.table [])) (path.into value old) := by
  have hitems : (old.getD .nil).item? name = (old.getD (.table [])).item? name := by
    cases old <;> rfl
  obtain ⟨first, steps⟩ := path
  cases steps with
  | nil =>
    cases value with
    | table incoming => exact (Overlay.of_empty rfl rfl).putAll incoming
    | _ => cases h
  | cons step steps =>
    cases step with
    | key key =>
      cases steps with
      | nil => exact (Overlay.of_empty rfl hitems).put key value
      | cons next steps =>
        -- more steps follow, so nothing that could be read stands at the key
        have hinto (old : Option Setting) :
            (into ⟨first, .key key :: next :: steps⟩ value old).item? name =
              if name = Text.lower key then
                some (setFrom value (next :: steps) (((old.getD .nil).item? name).getD .nil))
              else (old.getD .nil).item? name := item?_update key _ (old.getD .nil)
        constructor
        · intro hnone
          rw [hinto] at hnone ⊢
          split at hnone
          · cases hnone
          · rename_i hname
            rw [if_neg hname, hitems]
        · intro v hv hscalar
          rw [hinto] at hv
          split at hv
          · obtain rfl := Option.some.inj hv
            exact absurd hscalar (not_isScalar_setFrom next steps value _)
          · cases hv
    | index position => cases h

end SettingPath

end WebIdl
