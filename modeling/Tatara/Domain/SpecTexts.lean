import Mathlib.Data.List.Basic
import Tatara.Domain.ContentHash

/-! Which texts a specification is written as, and what they tell of it. -/

namespace Tatara.Domain

open Tatara.Rust

section

variable {α : Type} {document : α → Document}

/-- An optional part is told by its text, if no text of such a part is the one for none. -/
theorem optionDocument_inj (injective : Function.Injective document)
    (some : ∀ a, document a ≠ .null) {a b : Option α} :
    optionDocument document a = optionDocument document b ↔ a = b := by
  -- A part that is there is not written like one that is missing.
  cases a with
  | none =>
    cases b with
    | none => simp
    | some b => simpa [optionDocument] using (some b).symm
  | some a =>
    cases b with
    | none => simpa [optionDocument] using some a
    | some b => simpa [optionDocument] using injective.eq_iff

/-- A list is told by its text, if its items are. -/
theorem listDocument_inj (injective : Function.Injective document) {items others : List α} :
    listDocument document items = listDocument document others ↔ items = others := by
  -- It is written item by item.
  rw [listDocument, listDocument, Document.array.injEq]
  exact (List.map_injective_iff.mpr injective).eq_iff

end

/-- A string is told by its text. -/
theorem string_injective : Function.Injective Document.string :=
  -- The text is a quotation of it.
  fun _ _ same => Document.string.inj same

/-- A list of strings is told by its text. -/
@[simp] theorem textsDocument_inj {texts others : List String} :
    textsDocument texts = textsDocument others ↔ texts = others :=
  -- So are its items.
  listDocument_inj string_injective

/-- An optional string is told by its text. -/
@[simp] theorem optionString_inj {a b : Option String} :
    optionDocument .string a = optionDocument .string b ↔ a = b :=
  -- No string is written like one that is missing.
  optionDocument_inj string_injective fun _ same => by cases same

/-- An optional list of strings is told by its text. -/
@[simp] theorem optionTexts_inj {a b : Option (List String)} :
    optionDocument textsDocument a = optionDocument textsDocument b ↔ a = b :=
  -- No list is written like one that is missing.
  optionDocument_inj (fun _ _ same => textsDocument_inj.mp same) fun _ same => by cases same

/-- The entries of a map in some order tell the map. -/
theorem eq_of_perm_toList {first second : Std.ExtTreeMap String String}
    (same : first.toList.Perm second.toList) : first = second := by
  -- Either list finds a value under a key just where the map has it.
  refine Std.ExtTreeMap.ext_getElem? fun key => Option.ext fun value => ?_
  rw [← Std.ExtTreeMap.mem_toList_iff_getElem?_eq_some,
    ← Std.ExtTreeMap.mem_toList_iff_getElem?_eq_some]
  exact same.mem_iff

section

variable {traversal other : Traversal} {map map' : Std.ExtTreeMap String String}

/-- Maps are written alike if and only if their entries come in the same order. -/
theorem mapDocument_eq_iff : mapDocument traversal map = mapDocument other map' ↔
    traversal.entries map = other.entries map' := by
  -- An entry is told by its key and the text of its value.
  have injective : Function.Injective fun entry : String × String =>
      (entry.1, Document.string entry.2) := by
    intro a b same
    obtain ⟨keys, values⟩ := Prod.mk.inj same
    exact Prod.ext keys (Document.string.inj values)
  rw [mapDocument, mapDocument, Document.object.injEq]
  exact (List.map_injective_iff.mpr injective).eq_iff

/-- Maps that are written alike are the same, in whatever orders they are traversed. -/
theorem eq_of_mapDocument_eq (same : mapDocument traversal map = mapDocument other map') :
    map = map' := by
  -- Each traversal comes to all the entries.
  have entries := mapDocument_eq_iff.mp same
  have order : (traversal.entries map).Perm map'.toList := entries ▸ other.complete map'
  exact eq_of_perm_toList ((traversal.complete map).symm.trans order)

end

/-- A job type is told by its text. -/
@[simp] theorem JobType.document_inj {a b : JobType} : a.document = b.document ↔ a = b := by
  -- Different types have different texts.
  cases a <;> cases b <;> simp [document]

/-- A driver is told by its text. -/
@[simp] theorem DriverType.document_inj {a b : DriverType} :
    a.document = b.document ↔ a = b := by
  -- Different drivers have different texts.
  cases a <;> cases b <;> simp [document]

/-- A restart mode is told by its text. -/
@[simp] theorem RestartMode.document_inj {a b : RestartMode} :
    a.document = b.document ↔ a = b := by
  -- Different modes have different texts.
  cases a <;> cases b <;> simp [document]

/-- A secret provider is told by its text. -/
@[simp] theorem SecretProvider.document_inj {a b : SecretProvider} :
    a.document = b.document ↔ a = b := by
  -- Different providers have different texts.
  cases a <;> cases b <;> simp [document]

/-- A restart policy is told by its text. -/
@[simp] theorem RestartPolicy.document_inj {a b : RestartPolicy} :
    a.document = b.document ↔ a = b := by
  -- It is told field by field.
  cases a; cases b
  simp [document, UInt32.toNat_inj, UInt64.toNat_inj]

/-- Resources are told by their text. -/
@[simp] theorem Resources.document_inj {a b : Resources} : a.document = b.document ↔ a = b := by
  -- They are told field by field.
  cases a; cases b
  simp [document, UInt64.toNat_inj]

/-- A constraint is told by its text. -/
@[simp] theorem Constraint.document_inj {a b : Constraint} : a.document = b.document ↔ a = b := by
  -- It is told field by field.
  cases a; cases b
  simp [document]

/-- A port mapping is told by its text. -/
@[simp] theorem PortMapping.document_inj {a b : PortMapping} :
    a.document = b.document ↔ a = b := by
  -- It is told field by field.
  cases a; cases b
  simp [document, UInt16.toNat_inj]

/-- A network configuration is told by its text. -/
@[simp] theorem NetworkConfig.document_inj {a b : NetworkConfig} :
    a.document = b.document ↔ a = b := by
  -- Its ports are told one by one.
  cases a; cases b
  simp [document, listDocument_inj fun _ _ same => PortMapping.document_inj.mp same]

/-- A health check is told by its text. -/
@[simp] theorem HealthCheck.document_inj {a b : HealthCheck} :
    a.document = b.document ↔ a = b := by
  -- The tag tells which kind of check it is.
  cases a <;> cases b <;> simp [document, UInt16.toNat_inj, UInt64.toNat_inj]

/-- WASI capabilities are told by their text. -/
@[simp] theorem WasiCapabilities.document_inj {a b : WasiCapabilities} :
    a.document = b.document ↔ a = b := by
  -- They are told field by field.
  cases a; cases b
  simp [document]

/-- A reference to a secret is told by its text. -/
@[simp] theorem SecretRef.document_inj {a b : SecretRef} : a.document = b.document ↔ a = b := by
  -- It is told field by field.
  cases a; cases b
  simp [document]

/-- The source of a volume is told by its text. -/
@[simp] theorem VolumeSource.document_inj {a b : VolumeSource} :
    a.document = b.document ↔ a = b := by
  -- The optional size is told by its number.
  have sizes : Function.Injective fun size : UInt64 => Document.number size.toNat :=
    fun _ _ same => UInt64.toNat_inj.mp (Document.number.inj same)
  cases a <;> cases b <;> simp [document, optionDocument_inj sizes]

/-- The specification of a volume is told by its text. -/
@[simp] theorem VolumeSpec.document_inj {a b : VolumeSpec} : a.document = b.document ↔ a = b := by
  -- It is told field by field.
  cases a; cases b
  simp [document]

/-- A claim on a volume is told by its text. -/
@[simp] theorem VolumeClaim.document_inj {a b : VolumeClaim} :
    a.document = b.document ↔ a = b := by
  -- It is told field by field.
  cases a; cases b
  simp [document]

/-- A list whose places are written each in its own way is told by what is written. -/
theorem mapIdx_inj {α β : Type} {f g : Nat → α → β}
    (injective : ∀ place a b, f place a = g place b → a = b) {items others : List α}
    (same : items.mapIdx f = others.mapIdx g) : items = others := by
  -- The lists are as long as each other, and each place tells its item.
  have lengths := congrArg List.length same
  rw [List.length_mapIdx, List.length_mapIdx] at lengths
  refine List.ext_getElem lengths fun place inside inside' => ?_
  have here := congrArg (·[place]?) same
  simp only [List.getElem?_mapIdx, List.getElem?_eq_getElem inside,
    List.getElem?_eq_getElem inside', Option.map_some, Option.some.injEq] at here
  exact injective place _ _ here

section

variable {layout other : TaskMap → Traversal}

/-- The configuration of a task is told by its text, in whatever orders its maps are written. -/
theorem TaskConfig.eq_of_document_eq {a b : TaskConfig}
    (same : a.document layout = b.document other) : a = b := by
  -- The tag tells the driver, and then each field is told by its text.
  cases a <;> cases b <;> simp [document] at same ⊢
  case exec.exec => exact same
  case nix.nix => exact same
  case nixBuild.nixBuild => exact same
  case kasou.kasou =>
    simpa [UInt32.toNat_inj, UInt64.toNat_inj] using same
  case oci.oci =>
    obtain ⟨image, ports, volumes, commands⟩ := same
    exact ⟨image, eq_of_mapDocument_eq ports, eq_of_mapDocument_eq volumes, commands⟩
  case wasi.wasi =>
    obtain ⟨path, capabilities, mounts, services⟩ := same
    exact ⟨path, capabilities, eq_of_mapDocument_eq mounts, services⟩

/-- A task is told by its text, in whatever orders its maps are written. -/
theorem Task.eq_of_document_eq {a b : Task} (same : a.document layout = b.document other) :
    a = b := by
  -- The lists are told item by item, and the maps whatever their order.
  cases a; cases b
  simp [document, listDocument_inj fun _ _ same => HealthCheck.document_inj.mp same,
    listDocument_inj fun _ _ same => VolumeClaim.document_inj.mp same] at same ⊢
  obtain ⟨name, driver, config, env, others⟩ := same
  exact ⟨name, driver, TaskConfig.eq_of_document_eq config, eq_of_mapDocument_eq env, others⟩

end

/-- A task group is told by its text, in whatever orders the maps of its tasks are written. -/
theorem TaskGroup.eq_of_document_eq {layout other : Nat → TaskMap → Traversal} {a b : TaskGroup}
    (same : a.document layout = b.document other) : a = b := by
  -- Each task is told by its text, at its own place.
  have networks : Function.Injective NetworkConfig.document :=
    fun _ _ same => NetworkConfig.document_inj.mp same
  cases a; cases b
  simp [document, UInt32.toNat_inj, optionDocument_inj networks (fun _ same => by cases same),
    listDocument_inj fun _ _ same => SecretRef.document_inj.mp same,
    listDocument_inj fun _ _ same => VolumeSpec.document_inj.mp same] at same ⊢
  obtain ⟨name, count, tasks, others⟩ := same
  exact ⟨name, count, mapIdx_inj (fun _ _ _ => Task.eq_of_document_eq) tasks, others⟩

/-- Specifications that are written alike, in whatever orders, are the same data. -/
theorem JobSpec.eq_of_document_eq {layout other : Layout} {a b : JobSpec}
    (same : a.document layout = b.document other) : a = b := by
  -- Each group is told by its text, at its own place.
  cases a; cases b
  simp [document, listDocument_inj fun _ _ same => Constraint.document_inj.mp same] at same ⊢
  obtain ⟨id, jobType, groups, constraints, «meta»⟩ := same
  exact ⟨id, jobType, mapIdx_inj (fun _ _ _ => TaskGroup.eq_of_document_eq) groups, constraints,
    eq_of_mapDocument_eq «meta»⟩

end Tatara.Domain
