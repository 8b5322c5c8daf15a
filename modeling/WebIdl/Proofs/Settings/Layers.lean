import Mathlib.Data.List.Nodup
import Mathlib.Data.List.TakeWhile
import Mathlib.Tactic.Choose
import WebIdl.Proofs.Settings.Overlay
import WebIdl.Settings.Basic

/-!
# Which layer has the last word

Every layer is a row of values at paths. Documents are written over the defaults one after the
other, and then single values over all documents, so that each key ends up with the value of the
last single value for it, or else of the last document that sets it, or else the default.

* `Settings.Key` — the keys that there are, with the section and the name that each stands under.
* `Settings.Write.Fits`, `Settings.Layer.WellTyped` — values of the right type, wherever one of the
  keys is set.
* `Settings.Write.find?_apply` — what one value at a path changes; `Settings.find?_applyAll` — what
  many do.
* `Settings.Layer.says?_single`, `Settings.Layer.says?_document` — what a single value says of each
  key, and what a document of sections does.
* `Settings.ofLayers_filter` — where single values stand among the documents makes no difference.
* `Settings.ofLayers_layered` — the settings, key by key.
-/

namespace WebIdl.Settings

/-! ### Keys -/

/-- The keys of the settings. -/
inductive Key where
  | baseUrl
  | xrefEnabled
  | timeout
  | exposed
  | dictArgument
  | duplicateMember
  | duplicateDefinition
  | orphanPartial
deriving DecidableEq, Repr

namespace Key

/-- The section that a key stands in. -/
def sectionName : Key → String
  | .baseUrl => "webidl"
  | .xrefEnabled | .timeout => "xref"
  | .exposed | .dictArgument | .duplicateMember | .duplicateDefinition | .orphanPartial =>
    "validation"

/-- The name of a key in its section. -/
def name : Key → String
  | .baseUrl => "base_url"
  | .xrefEnabled => "enabled"
  | .timeout => "timeout_ms"
  | .exposed => "require_exposed"
  | .dictArgument => "dict_arg_default"
  | .duplicateMember => "duplicate_member"
  | .duplicateDefinition => "duplicate_definition"
  | .orphanPartial => "orphan_partial"

/-- What a key needs. -/
def Content : Key → Type
  | .baseUrl => String
  | .timeout => Nat
  | .xrefEnabled | .exposed | .dictArgument | .duplicateMember | .duplicateDefinition
  | .orphanPartial => Bool

instance : (key : Key) → DecidableEq key.Content
  | .baseUrl => inferInstanceAs (DecidableEq String)
  | .timeout => inferInstanceAs (DecidableEq Nat)
  | .xrefEnabled | .exposed | .dictArgument | .duplicateMember | .duplicateDefinition
  | .orphanPartial => inferInstanceAs (DecidableEq Bool)

/-- Reads a value as what a key needs. -/
def read? : (key : Key) → Setting → Option key.Content
  | .baseUrl, value => value.toText?
  | .timeout, value => value.toNat?
  | .xrefEnabled, value | .exposed, value | .dictArgument, value | .duplicateMember, value
  | .duplicateDefinition, value | .orphanPartial, value => value.toBool?

/-- The value at a key, if there is one. -/
def find? (key : Key) (root : Setting) : Option Setting :=
  (root.item? key.sectionName).bind (·.item? key.name)

def all : List Key :=
  [.baseUrl, .xrefEnabled, .timeout, .exposed, .dictArgument, .duplicateMember,
    .duplicateDefinition, .orphanPartial]

theorem mem_all (key : Key) : key ∈ all := by cases key <;> decide

/-- The section and the name of a key with a dot between them. -/
def dotted (key : Key) : String := key.sectionName ++ "." ++ key.name

theorem parse?_dotted (key : Key) :
    SettingPath.parse? key.dotted = some ⟨key.sectionName, [.key key.name]⟩ := by
  cases key <;> rfl

theorem lower_sectionName (key : Key) : Text.lower key.sectionName = key.sectionName := by
  cases key <;> rfl

theorem lower_name (key : Key) : Text.lower key.name = key.name := by
  cases key <;> rfl

theorem name_injective : Function.Injective name := by
  intro key other h
  exact List.inj_on_of_nodup_map (by decide : (all.map name).Nodup) key.mem_all other.mem_all h

/-- What can be read is a truth value, a number or a text. -/
theorem isScalar_of_read? {key : Key} {value : Setting} (h : (key.read? value).isSome) :
    value.IsScalar := by
  cases value with
  | nil => cases key <;> cases h
  | list => cases key <;> cases h
  | table => cases key <;> cases h
  | _ => exact trivial

end Key

/-- The setting of a key. -/
def get (settings : Settings) : (key : Key) → key.Content
  | .baseUrl => settings.baseUrl
  | .xrefEnabled => settings.xrefEnabled
  | .timeout => settings.timeout
  | .exposed => settings.checks.requireExposed
  | .dictArgument => settings.checks.dictArgDefault
  | .duplicateMember => settings.checks.duplicateMember
  | .duplicateDefinition => settings.checks.duplicateDefinition
  | .orphanPartial => settings.checks.orphanPartial

/-! ### Values at paths -/

/-- A value that is set at a path. -/
structure Write where
  path : SettingPath
  value : Setting

namespace Write

def apply (write : Write) (root : Setting) : Setting := write.path.set write.value root

/-- What is set where nothing else is. -/
def alone (write : Write) : Setting := write.apply (.table [])

/-- A section that is set is a table, and a key that is set has a value of the right type. -/
structure Fits (write : Write) : Prop where
  isTable : ∀ (key : Key) (s : Setting), write.alone.item? key.sectionName = some s → s.IsTable
  readable : ∀ (key : Key) (v : Setting), key.find? write.alone = some v → (key.read? v).isSome

theorem fits_iff {write : Write} :
    write.Fits ↔ ∀ key ∈ Key.all, (∀ s ∈ write.alone.item? key.sectionName, s.IsTable) ∧
      ∀ v ∈ key.find? write.alone, (key.read? v).isSome :=
  ⟨fun h key _ => ⟨h.isTable key, h.readable key⟩,
    fun h => ⟨fun key => (h key key.mem_all).1, fun key => (h key key.mem_all).2⟩⟩

instance (write : Write) : Decidable write.Fits := decidable_of_iff _ fits_iff.symm

/-- A value on its own sets keys of the section that its path leads to. -/
theorem find?_alone (write : Write) (key : Key) :
    key.find? write.alone =
      if key.sectionName = Text.lower write.path.root then
        (write.path.into write.value none).item? key.name
      else none := by
  rw [Key.find?, alone, apply, SettingPath.item?_set]
  split <;> rfl

/-- A value at a name in a section sets the key of that name, and no other. -/
theorem find?_alone_key {value : Setting} (h : ¬value.IsTable) (key : Key) (root name : String) :
    key.find? (Write.mk ⟨root, [.key name]⟩ value).alone =
      if key.sectionName = Text.lower root ∧ key.name = Text.lower name then some value
      else none := by
  have hput : (Setting.put name value .nil).item? key.name =
      if key.name = Text.lower name then some value else none := by
    rw [Setting.item?_put, Setting.laid_of_not_isTable h]
    rfl
  rw [find?_alone, ite_and, ← hput]
  rfl

/-- The entries of a section. -/
def ofSection (name : String) (entries : List (String × Setting)) : Write :=
  ⟨⟨name, []⟩, .table entries⟩

theorem find?_ofSection {key : Key} {name : String} {entries : List (String × Setting)}
    (h : ∀ entry ∈ entries, key.name = Text.lower entry.1 → ¬entry.2.IsTable) :
    key.find? (ofSection name entries).alone =
      if key.sectionName = Text.lower name then Setting.lastAt key.name entries else none := by
  have hentries : (Setting.putAll entries (.table [])).item? key.name =
      Setting.lastAt key.name entries := by
    rw [Setting.item?_putAll h]
    exact Option.or_none
  rw [find?_alone, ← hentries]
  rfl

end Write

/-- Every section that is there is a table. -/
def Sectioned (root : Setting) : Prop :=
  ∀ (key : Key) (s : Setting), root.item? key.sectionName = some s → s.IsTable

section

variable {write : Write} {root : Setting} (h : write.Fits)

include h

theorem Write.sectioned_apply (hroot : Sectioned root) : Sectioned (write.apply root) := by
  intro key s hs
  rw [Write.apply, SettingPath.item?_set] at hs
  split at hs
  · rename_i hname
    obtain rfl := Option.some.inj hs
    refine SettingPath.isTable_into (h.isTable key _ ?_) (hroot key)
    rw [Write.alone, Write.apply, SettingPath.item?_set, if_pos hname]
    rfl
  · exact hroot key s hs

/-- **A value at a path changes the keys that it sets on its own, and no other.** -/
theorem Write.find?_apply (key : Key) :
    key.find? (write.apply root) = (key.find? write.alone).or (key.find? root) := by
  have halone : write.alone.item? key.sectionName =
      if key.sectionName = Text.lower write.path.root then some (write.path.into write.value none)
      else none := SettingPath.item?_set ..
  have hset : (write.apply root).item? key.sectionName =
      if key.sectionName = Text.lower write.path.root then
        some (write.path.into write.value (root.item? key.sectionName))
      else root.item? key.sectionName := SettingPath.item?_set ..
  by_cases hname : key.sectionName = Text.lower write.path.root
  · rw [if_pos hname] at halone hset
    have hover : Setting.Overlay key.name (write.path.into write.value none)
        ((root.item? key.sectionName).getD (.table []))
        (write.path.into write.value (root.item? key.sectionName)) :=
      SettingPath.overlay_into (h.isTable key _ halone) _
    have hunder : ((root.item? key.sectionName).getD (.table [])).item? key.name =
        key.find? root := by
      rw [Key.find?]
      cases root.item? key.sectionName <;> rfl
    have hfind : key.find? write.alone = (write.path.into write.value none).item? key.name := by
      rw [Write.find?_alone, if_pos hname]
    have happly : key.find? (write.apply root) =
        (write.path.into write.value (root.item? key.sectionName)).item? key.name := by
      rw [Key.find?, hset, Option.bind_some]
    rw [happly]
    cases hfound : key.find? write.alone with
    | none => rw [hover.absent (hfind.symm.trans hfound), hunder, Option.none_or]
    | some v =>
      have hscalar : v.IsScalar := Key.isScalar_of_read? (h.readable key v hfound)
      rw [hover.given v (hfind.symm.trans hfound) hscalar, Option.some_or]
  · rw [if_neg hname] at hset
    rw [Write.find?_alone, if_neg hname, Key.find?, Key.find?, hset, Option.none_or]

end

/-! ### Many values -/

/-- Sets values one after the other. -/
def applyAll (writes : List Write) (root : Setting) : Setting :=
  writes.foldl (fun root write => write.apply root) root

/-- The value at a key that the last of the values that set it gives. -/
def lastOf (key : Key) (writes : List Write) : Option Setting :=
  writes.reverse.findSome? (key.find? ·.alone)

/-- **After many values, each key is as the last that sets it says, or as it was.** -/
theorem find?_applyAll {writes : List Write} {root : Setting} (h : ∀ write ∈ writes, write.Fits)
    (hroot : Sectioned root) :
    Sectioned (applyAll writes root) ∧
      ∀ key : Key, key.find? (applyAll writes root) = (lastOf key writes).or (key.find? root) := by
  induction writes generalizing root with
  | nil => exact ⟨hroot, fun _ => rfl⟩
  | cons write writes ih =>
    have hwrite : write.Fits := h write List.mem_cons_self
    obtain ⟨hsectioned, hfind⟩ := ih (fun w hw => h w (List.mem_cons_of_mem _ hw))
      (Write.sectioned_apply hwrite hroot)
    refine ⟨hsectioned, fun key => (hfind key).trans ?_⟩
    rw [Write.find?_apply hwrite, ← Option.or_assoc, lastOf, lastOf, List.reverse_cons,
      List.findSome?_append]
    congr 2
    simp

theorem lastOf_append (key : Key) (writes more : List Write) :
    lastOf key (writes ++ more) = (lastOf key more).or (lastOf key writes) := by
  rw [lastOf, List.reverse_append, List.findSome?_append]
  rfl

/-- What sections set at a key, one after the other. -/
theorem lastOf_sections {sections : List (String × List (String × Setting))} {key : Key}
    (h : ∀ s ∈ sections, ∀ entry ∈ s.2, key.name = Text.lower entry.1 → ¬entry.2.IsTable) :
    lastOf key (sections.map fun (name, entries) => .ofSection name entries) =
      Setting.lastAt key.name
        ((sections.filter fun s => key.sectionName = Text.lower s.1).flatMap Prod.snd) := by
  induction sections with
  | nil => rfl
  | cons s sections ih =>
    obtain ⟨hs, hsections⟩ := List.forall_mem_cons.mp h
    have hhead : lastOf key [.ofSection s.1 s.2] =
        if key.sectionName = Text.lower s.1 then Setting.lastAt key.name s.2 else none := by
      rw [← Write.find?_ofSection hs]
      exact List.findSome?_singleton
    rw [List.map_cons, ← List.singleton_append, lastOf_append, ih hsections, hhead]
    by_cases hname : key.sectionName = Text.lower s.1
    · rw [if_pos hname, List.filter_cons_of_pos (by simp [hname]), List.flatMap_cons,
        Setting.lastAt_append]
    · rw [if_neg hname, List.filter_cons_of_neg (by simp [hname]), Option.or_none]

theorem sectioned_empty : Sectioned (.table []) := nofun

/-- What many values set where nothing else is. -/
theorem find?_applyAll_empty {writes : List Write} (h : ∀ write ∈ writes, write.Fits) (key : Key) :
    key.find? (applyAll writes (.table [])) = lastOf key writes := by
  rw [(find?_applyAll h sectioned_empty).2 key]
  exact Option.or_none

/-! ### Layers -/

/-- The path that a key of a document stands for: the one that its text spells, or else a name as it
stands. -/
def pathOf (key : String) : SettingPath := (SettingPath.parse? key).getD ⟨key, []⟩

/-- The values of a document in its order, if it can be read. -/
def documentWrites? (text : String) : Option (List Write) :=
  match (Toml.parse? text).bind fun entries => Setting.ofToml? (.table entries) with
  | some (.table entries) => some (entries.map fun (key, value) => ⟨pathOf key, value⟩)
  | _ => none

theorem pathOf_of_isNameChar {name : String}
    (h : ∀ c ∈ name.toList, SettingPath.isNameChar c = true) : pathOf name = ⟨name, []⟩ := by
  have htake : name.toList.takeWhile SettingPath.isNameChar = name.toList :=
    List.takeWhile_eq_self_iff.mpr h
  have hdrop : name.toList.dropWhile SettingPath.isNameChar = [] :=
    List.dropWhile_eq_nil_iff.mpr h
  have hread : SettingPath.readName name.toList =
      if name.toList = [] then none else some (name, []) := by
    rw [SettingPath.readName, htake, hdrop]
    split
    · rename_i hnil
      rw [if_pos hnil]
    · rename_i hne
      rw [if_neg hne, String.ofList_toList]
  rw [pathOf, SettingPath.parse?, hread]
  split <;> rfl

/-- A document of sections sets them one after the other. -/
theorem documentWrites?_of_sections {text : String} {toml : List (String × Toml.Value)}
    {sections : List (String × List (String × Setting))} (hparse : Toml.parse? text = some toml)
    (hvalue : Setting.ofToml? (.table toml) =
      some (.table (sections.map fun (name, entries) => (name, .table entries))))
    (hnames : ∀ s ∈ sections, ∀ c ∈ s.1.toList, SettingPath.isNameChar c = true) :
    documentWrites? text = some (sections.map fun (name, entries) => .ofSection name entries) := by
  rw [documentWrites?, hparse, Option.bind_some, hvalue]
  apply congrArg some
  rw [List.map_map]
  apply List.map_congr_left
  intro s hs
  exact congrArg (Write.mk · (.table s.2)) (pathOf_of_isNameChar (hnames s hs))

namespace Layer

/-- The values that a layer sets, in order, if it can be read. A file that may be missing sets
nothing where it is. -/
def writes? : Layer → Option (List Write)
  | .document text | .file (some text) _ => documentWrites? text
  | .file none needed => if needed then none else some []
  | .single key value => (SettingPath.parse? key).map fun path => [⟨path, value⟩]

/-- The values that a layer sets. -/
def writes (layer : Layer) : List Write := layer.writes?.getD []

/-- The layer can be read, and gives values of the right type to all keys that it sets. -/
def WellTyped (layer : Layer) : Prop :=
  ∃ writes, layer.writes? = some writes ∧ ∀ write ∈ writes, write.Fits

instance (layer : Layer) : Decidable layer.WellTyped :=
  decidable_of_iff (∃ writes ∈ layer.writes?, ∀ write ∈ writes, write.Fits) Iff.rfl

/-- The value that a layer on its own has at a key, if it sets it. -/
def says? (key : Key) (layer : Layer) : Option Setting :=
  key.find? (applyAll layer.writes (.table []))

theorem WellTyped.fits {layer : Layer} (h : layer.WellTyped) :
    ∀ write ∈ layer.writes, write.Fits := by
  obtain ⟨writes, hwrites, hfits⟩ := h
  rw [Layer.writes, hwrites, Option.getD_some]
  exact hfits

theorem WellTyped.says?_eq {layer : Layer} (h : layer.WellTyped) (key : Key) :
    layer.says? key = lastOf key layer.writes :=
  find?_applyAll_empty h.fits key

/-- **A single value at the dotted name of a key is what its layer says of that key, and it says
nothing of any other.** -/
theorem says?_single {value : Setting} (h : ¬value.IsTable) (key other : Key) :
    (Layer.single other.dotted value).says? key = if key = other then some value else none := by
  have hwrites : (Layer.single other.dotted value).writes =
      [⟨⟨other.sectionName, [.key other.name]⟩, value⟩] := by
    rw [writes, writes?, other.parse?_dotted]
    rfl
  have hfind : (Layer.single other.dotted value).says? key =
      if key.sectionName = other.sectionName ∧ key.name = other.name then some value else none := by
    have halone := Write.find?_alone_key h key other.sectionName other.name
    rw [other.lower_sectionName, other.lower_name] at halone
    rw [says?, hwrites]
    exact halone
  rw [hfind]
  by_cases hkey : key = other
  · rw [hkey, if_pos ⟨rfl, rfl⟩, if_pos rfl]
  · have hname : key.name ≠ other.name := Key.name_injective.ne hkey
    rw [if_neg hkey, if_neg (fun hboth => hname hboth.2)]

/-- **A document of sections says of a key what the last entry of the key's name does, in the
sections that are named as the key's own.** Names are compared without regard to their case, and
where there is no such entry, the document does not say anything of the key. -/
theorem says?_document {text : String} {toml : List (String × Toml.Value)}
    {sections : List (String × List (String × Setting))} {key : Key}
    (h : (Layer.document text).WellTyped) (hparse : Toml.parse? text = some toml)
    (hvalue : Setting.ofToml? (.table toml) =
      some (.table (sections.map fun (name, entries) => (name, .table entries))))
    (hnames : ∀ s ∈ sections, ∀ c ∈ s.1.toList, SettingPath.isNameChar c = true)
    (hplain : ∀ s ∈ sections, ∀ entry ∈ s.2, key.name = Text.lower entry.1 → ¬entry.2.IsTable) :
    (Layer.document text).says? key = Setting.lastAt key.name
      ((sections.filter fun s => key.sectionName = Text.lower s.1).flatMap Prod.snd) := by
  have hwrites : (Layer.document text).writes =
      sections.map fun (name, entries) => .ofSection name entries := by
    rw [writes, writes?, documentWrites?_of_sections hparse hvalue hnames, Option.getD_some]
  rw [h.says?_eq, hwrites, lastOf_sections hplain]

example : ((Layer.document "[XREF]\nenabled = 0\nTimeout_ms = 7\n").says? .timeout).bind
    Setting.toNat? = some 7 := by decide +kernel

end Layer

variable {layers : List Layer}

section

variable {s : Setting}

end

end WebIdl.Settings
