import Tatara.Kube.Reconciler

/-! The labels that a manifest gives to its object once the labels of management are injected. -/

namespace Tatara.Kube

open Rust (Json JsonValue JsonText)
open Rust.Json (field insertField valueAt lookup_insertField)

section

variable {key other : String} {entries : List (String × String)}
  {old fields : List (String × Json)}

/-- Adding entries to an object keeps it one. -/
theorem built_addTo (built : (Json.object old).Built) :
    (Json.object (insertInto.addTo entries old)).Built := by
  induction entries generalizing old with
  | nil => exact built
  | cons entry rest ih => exact ih (Rust.Json.built_insertField built (.string _))

/-- Inserting into one field leaves every other alone. -/
theorem lookup_insertInto_of_ne (different : other ≠ key) :
    (insertInto key entries fields).lookup other = fields.lookup other := by
  unfold insertInto
  split
  · rw [lookup_insertField, if_neg different]
  · rw [lookup_insertField, if_neg different]
  · rfl

/-- The field inserted into: an object gets the entries, and what is not one stays. -/
theorem lookup_insertInto_self :
    (insertInto key entries fields).lookup key =
      match fields.lookup key with
      | none => some (.object (insertInto.addTo entries []))
      | some (.object old) => some (.object (insertInto.addTo entries old))
      | some value => some value := by
  -- By the value that the field has before.
  unfold insertInto
  cases held : fields.lookup key with
  | none => simp only [lookup_insertField, if_true]
  | some value => cases value <;> simp only [lookup_insertField, if_true, held]

end

/-- The generation is written into the labels that management adds. -/
theorem lookup_managementLabels (clusterName generation : String) (old : List (String × Json)) :
    (insertInto.addTo (managementLabels clusterName generation) old).lookup labelGeneration =
      some (.string generation) := by
  rw [insertInto.addTo, managementLabels]
  simp only [List.foldl_cons, List.foldl_nil, lookup_insertField, if_true]

/-- Labels that can be read are texts, and these are what is read. -/
theorem labels_eq_of_read {labels : List (String × Json)} {given : List (String × String)}
    (read : (labels.mapM fun entry =>
      (asStr (some entry.2)).map fun text => (entry.1, text)) = some given) :
    labels = given.map fun entry => (entry.1, Json.string entry.2) := by
  induction labels generalizing given with
  | nil =>
    cases read
    rfl
  | cons entry rest ih =>
    rw [List.mapM_cons] at read
    -- The first field is a text, and the others are read behind it.
    obtain ⟨first, one, behind⟩ := Option.bind_eq_some_iff.mp read
    obtain ⟨others, readRest, ended⟩ := Option.bind_eq_some_iff.mp behind
    obtain rfl := Option.some.inj ended
    obtain ⟨text, isText, rfl⟩ := Option.map_eq_some_iff.mp one
    obtain ⟨key, value⟩ := entry
    rw [List.map_cons, ← ih readRest]
    cases value with
    | string s =>
      cases isText
      rfl
    | null | bool | number | array | object => cases isText

/-- The text of a field is what its labels give under its key. -/
theorem lastWrite_of_read {labels : List (String × Json)} {given : List (String × String)}
    (built : (Json.object labels).Built)
    (read : (labels.mapM fun entry =>
      (asStr (some entry.2)).map fun text => (entry.1, text)) = some given)
    {key text : String} (held : labels.lookup key = some (.string text)) :
    Writes.lastWrite given key = some text := by
  have texts := labels_eq_of_read read
  cases built with
  | object _ ascending _ =>
    refine Writes.lastWrite_of_mem ?_ ?_
    · -- The keys of an object are distinct.
      have keys : given.map Prod.fst = labels.map Prod.fst := by
        rw [texts, List.map_map]
        rfl
      rw [keys]
      refine List.pairwise_map.mpr (ascending.imp fun {a b} smaller same => ?_)
      exact String.lt_irrefl b.1 (same ▸ smaller)
    · have among := Rust.Json.mem_of_lookup held
      rw [texts] at among
      obtain ⟨entry, listed, same⟩ := List.mem_map.mp among
      obtain ⟨sameKey, sameText⟩ := Prod.mk.inj same
      cases sameText
      rwa [← sameKey]

section

variable [JsonText] [Sha256]

/-- A value that is parsed has an object of metadata. -/
theorem metadata_of_fromValue {value : Json} {resource : ManagedResource}
    (parsed : ManagedResource.fromValue value = .ok resource) :
    ∃ fields metadata, value = .object fields ∧
      fields.lookup "metadata" = some (.object metadata) ∧ resource.manifest = value := by
  unfold ManagedResource.fromValue at parsed
  split at parsed
  · cases parsed
  · split at parsed
    · cases parsed
    · split at parsed
      · cases parsed
      · rename_i name named
        cases parsed
        -- A name can only be found inside an object inside an object.
        cases value with
        | object fields =>
          cases held : fields.lookup "metadata" with
          | none => simp [Rust.Json.valueAt_cons, field, held, asStr] at named
          | some inner =>
            cases inner with
            | object metadata => exact ⟨fields, metadata, rfl, held, rfl⟩
            | null | bool | number | string | array =>
              simp [Rust.Json.valueAt_cons, field, held, asStr] at named
        | null | bool | number | string | array =>
          simp [Rust.Json.valueAt_cons, field, asStr] at named

end

/-- The labels of a manifest with metadata once management has injected its own. -/
theorem labels_injected {fields metadata : List (String × Json)}
    (held : fields.lookup "metadata" = some (.object metadata))
    (clusterName generation contentHash now : String) :
    valueAt ["metadata", "labels"] (injectManagementLabels (.object fields) clusterName generation
      contentHash now) =
      (insertInto "labels" (managementLabels clusterName generation) metadata).lookup "labels" := by
  -- The annotations are inserted into the metadata as well, under another key.
  rw [injectManagementLabels]
  simp only [held, Rust.Json.valueAt_cons, field, lookup_insertField, if_true,
    Option.bind_some]
  rw [lookup_insertInto_of_ne (by decide)]
  cases (insertInto "labels" (managementLabels clusterName generation) metadata).lookup "labels" <;>
    rfl

/-- What an injected manifest gives as labels is nothing, or has the generation in it. -/
theorem generation_given {fields metadata : List (String × Json)}
    (built : (Json.object fields).Built)
    (held : fields.lookup "metadata" = some (.object metadata))
    {clusterName generation contentHash now : String} {given : List (String × String)}
    (gives : givenLabels (injectManagementLabels (.object fields) clusterName generation
      contentHash now) = some given) :
    given = [] ∨ Writes.lastWrite given labelGeneration = some generation := by
  rw [givenLabels, labels_injected held, lookup_insertInto_self] at gives
  have inner : (Json.object metadata).Built :=
    @Rust.Json.Built.of_field (.object fields) (.object metadata) "metadata" built held
  -- A field that is missing or an object has the labels added, and of the others only null is read.
  cases labels : metadata.lookup "labels" with
  | none =>
    simp only [labels] at gives
    exact .inr (lastWrite_of_read (built_addTo (.object [] .nil (by simp))) gives
      (lookup_managementLabels clusterName generation []))
  | some value =>
    cases value with
    | null =>
      simp only [labels] at gives
      exact .inl (Option.some.inj gives).symm
    | object old =>
      simp only [labels] at gives
      have oldBuilt : (Json.object old).Built := inner.of_field labels
      exact .inr (lastWrite_of_read (built_addTo oldBuilt) gives
        (lookup_managementLabels clusterName generation old))
    | bool | number | string | array =>
      simp only [labels] at gives
      cases gives

variable {kinds : Kinds} [JsonText] [Sha256]

/-- A resource that is applied gives no labels, or the generation of the tick among them. -/
theorem generation_given_desired {answers : Answers kinds} {clusterName : String}
    {raw : List JsonValue} {resource : ManagedResource}
    (listed : resource ∈ desired answers clusterName raw) {given : List (String × String)}
    (gives : givenLabels resource.manifest = some given) :
    given = [] ∨
      Writes.lastWrite given labelGeneration = some (generationHash (parseAll raw)) := by
  unfold desired topologicalSort at listed
  -- Sorting and labelling keep the resources that were parsed.
  obtain ⟨parsed, among, rfl⟩ := List.mem_map.mp (List.mem_mergeSort.mp listed)
  obtain ⟨value, -, read⟩ := List.mem_filterMap.mp among
  cases success : ManagedResource.fromValue value.json with
  | error e =>
    rw [success] at read
    cases read
  | ok other =>
    rw [success] at read
    cases read
    obtain ⟨fields, metadata, whole, held, same⟩ := metadata_of_fromValue success
    have built := value.built
    rw [whole] at built
    simp only [labelled] at gives
    rw [same, whole] at gives
    exact generation_given built held gives

end Tatara.Kube
