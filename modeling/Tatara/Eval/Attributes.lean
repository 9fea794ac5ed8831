import Tatara.Eval.Begin
import Tatara.Eval.Derivations

/-! The attributes that a derivation keeps of those that it is built from. -/

namespace Tatara.Eval

open Nix (Recipe InputRef Source BuilderPhase BuilderPhases EnvVar BridgeTarget)

variable {H : Host}

section keeping

variable {hash : Nix.Derivation Recipe → String} {fields : Fields H} {key : String}

/-- Saying the same of the value that is there is saying the same of the key. -/
theorem given_congr {said said' : Value (Builders H) → Prop}
    (same : ∀ v, fields.lookup key = some v → (said v ↔ said' v)) :
    Given fields key said ↔ Given fields key said' :=
  forall_congr' fun v => forall_congr' fun found => same v found

/-- What is said of a key that is there is said of its value. -/
theorem given_iff {v : Value (Builders H)} {said : Value (Builders H) → Prop}
    (found : fields.lookup key = some v) : Given fields key said ↔ said v := by
  constructor
  · intro given
    -- A key has one value.
    exact given v found
  · intro spoken v' found'
    obtain rfl : v = v' := Option.some.inj (found.symm.trans found')
    exact spoken

/-- Of a key that is not there everything is said. -/
theorem given_of_absent {said : Value (Builders H) → Prop} (absent : fields.lookup key = none) :
    Given fields key said := by
  intro v found
  rw [absent] at found
  cases found

/-- What is required is given. -/
theorem strOf_of_requireStr {s : String} (read : requireStr fields key = .ok s) :
    Given fields key (StrOf · s) := by
  intro v found
  simp only [requireStr, found] at read
  -- What is no string is refused.
  cases text : v.asStr with
  | none => simp [text] at read
  | some s' =>
    simp only [text] at read
    rw [StrOf, text, Except.ok.inj read]

/-- What is required is there. -/
theorem lookup_of_requireStr {s : String} (read : requireStr fields key = .ok s) :
    ∃ v, fields.lookup key = some v ∧ v.asStr = some s := by
  -- What is missing is refused.
  cases found : fields.lookup key with
  | none =>
    rw [requireStr, found] at read
    cases read
  | some v => exact ⟨v, rfl, strOf_of_requireStr read v found⟩

/-- An optional string is kept when it is one. -/
theorem held_optionalStr_iff :
    Given fields key (Held StrOf (optionalStr fields key)) ↔ Given fields key Textual := by
  refine given_congr fun v found => ?_
  rw [optionalStr, found, Option.bind_some, Textual, Option.isSome_iff_exists]
  exact exists_congr fun s => and_self_iff

/-- A string with a default is kept when it is one. -/
theorem strOf_optionalStr_iff {default : String} :
    Given fields key (StrOf · ((optionalStr fields key).getD default)) ↔
      Given fields key Textual := by
  refine given_congr fun v found => ?_
  rw [optionalStr, found, Option.bind_some, Textual, StrOf]
  cases v.asStr <;> simp

/-- A switch is kept when it is one. -/
theorem switchOf_optionalBool_iff :
    Given fields key (SwitchOf · ((optionalBool fields key).getD false)) ↔
      Given fields key Switch := by
  refine given_congr fun v found => ?_
  rw [optionalBool, found, Switch]
  -- What is no switch has the default, which it does not say.
  constructor
  · intro switch
    exact ⟨_, switch⟩
  · rintro ⟨b, rfl⟩
    rfl

/-- No item is left out when all of them have a text. -/
theorem forall₂_filterMap_iff {xs : List (Value (Builders H))} :
    List.Forall₂ (TextOf hash) xs (xs.filterMap (Value.coerceToString hash)) ↔
      ∀ x ∈ xs, (x.coerceToString hash).isSome = true := by
  induction xs with
  | nil => simp
  | cons x xs ih =>
    rw [List.forall_mem_cons, ← ih]
    cases text : x.coerceToString hash with
    | none =>
      rw [List.filterMap_cons_none text]
      refine iff_of_false (fun all => ?_) (by simp)
      -- An item too few cannot stand for all of them.
      have lengths := all.length_eq
      have fewer := List.length_filterMap_le (Value.coerceToString hash) xs
      rw [List.length_cons] at lengths
      omega
    | some s =>
      rw [List.filterMap_cons_some text, List.forall₂_cons]
      simp [TextOf, text]

/-- Texts are kept when all items have one. -/
theorem textsOf_optionalTexts_iff :
    Given fields key (TextsOf hash · (optionalTexts hash fields key)) ↔
      Given fields key (Texts hash) := by
  refine given_congr fun v found => exists_congr fun xs => and_congr_right ?_
  rintro rfl
  rw [← forall₂_filterMap_iff, optionalTexts, found]

/-- A pinned path is kept when it is one. -/
theorem held_pinnedPath_iff :
    Given fields "pinned" (Held (PathOf hash) (pinnedPath hash fields)) ↔
      Given fields "pinned" Pinnable := by
  -- A path is itself, and a derivation has one.
  refine given_congr fun v found => ?_
  rw [pinnedPath, found]
  constructor
  · rintro ⟨p, -, rfl | ⟨d, rfl, -⟩⟩
    · exact .inl ⟨p, rfl⟩
    · exact .inr ⟨d, rfl⟩
  · rintro (⟨p, rfl⟩ | ⟨d, rfl⟩)
    · exact ⟨p, rfl, .inl rfl⟩
    · exact ⟨_, rfl, .inr ⟨d, rfl, rfl⟩⟩

/-- An input is kept when its optional keys are readable. -/
theorem inputOf_iff {v : Value (Builders H)} {input : InputRef}
    (read : inputRefFromValue hash v = .ok input) : InputOf hash v input ↔ ReadableInput v := by
  -- An input is a set of attributes, and anything else is refused.
  cases v with
  | attrs fields =>
    obtain ⟨name, named, ended⟩ := Fallible.bind_eq_ok_iff.mp read
    obtain rfl := Except.ok.inj ended
    constructor
    · rintro ⟨_, same, -, version, pinned⟩ _ same'
      cases same
      cases same'
      exact ⟨held_optionalStr_iff.mp version, held_pinnedPath_iff.mp pinned⟩
    · intro readable
      obtain ⟨version, pinned⟩ := readable fields rfl
      exact ⟨fields, rfl, strOf_of_requireStr named, held_optionalStr_iff.mpr version,
        held_pinnedPath_iff.mpr pinned⟩
  | _ => cases read

/-- A list is read item by item. -/
theorem given_of_partList {α : Type} {item : Value (Builders H) → Except EvalError α} {as : List α}
    (read : partList fields key item = .ok as) :
    Given fields key fun v => ∃ xs, v = .list xs ∧ xs.mapM item = .ok as := by
  intro v found
  rw [partList, found] at read
  cases v with
  | list xs => exact ⟨xs, rfl, read⟩
  | _ => cases read

/-- An attribute set is read by its keys. -/
theorem given_of_partAttrs {α : Type} {default : α} {part : Fields H → Except EvalError α} {a : α}
    (read : partAttrs fields key default part = .ok a) :
    Given fields key fun v => ∃ inner, v = .attrs inner ∧ part inner = .ok a := by
  intro v found
  rw [partAttrs, found] at read
  cases v with
  | attrs inner => exact ⟨inner, rfl, read⟩
  | _ => cases read

/-- Saying the same of an attribute set that is read is saying the same of its key. -/
theorem given_partAttrs_iff {α : Type} {default : α} {part : Fields H → Except EvalError α} {a : α}
    {said said' : Value (Builders H) → Prop} (read : partAttrs fields key default part = .ok a)
    (same : ∀ inner, part inner = .ok a → (said (.attrs inner) ↔ said' (.attrs inner))) :
    Given fields key said ↔ Given fields key said' := by
  refine given_congr fun v found => ?_
  obtain ⟨inner, rfl, inside⟩ := given_of_partAttrs read v found
  exact same inner inside

/-- Inputs are kept when the optional keys of each are readable. -/
theorem inputsOf_iff {inputs : List InputRef}
    (read : partList fields "inputs" (inputRefFromValue hash) = .ok inputs) :
    Given fields "inputs" (InputsOf hash · inputs) ↔
      Given fields "inputs" fun v => ∀ xs, v = .list xs → ∀ x ∈ xs, ReadableInput x := by
  -- The list is read item by item, and each item is an input of its own.
  refine given_congr fun v found => ?_
  obtain ⟨xs, rfl, success⟩ := given_of_partList read v found
  have items : List.Forall₂ (InputOf hash) xs inputs ↔ ∀ x ∈ xs, ReadableInput x :=
    Fallible.forall₂_iff_of_mapM success fun x input read => inputOf_iff read
  constructor
  · rintro ⟨_, same, all⟩ _ same'
    cases same
    cases same'
    exact items.mp all
  · intro readable
    exact ⟨xs, rfl, items.mpr (readable xs rfl)⟩

/-- What a source's keys must be is told by its kind. -/
theorem readableSource_iff {kind : String} (read : requireStr fields "kind" = .ok kind) :
    ReadableSource (.attrs fields) ↔ (kind = "Git" → Given fields "submodules" Switch) ∧
      (kind = "Derivation" → Given fields "input" ReadableInput) := by
  -- The kind is required, and so it is one text.
  obtain ⟨v, found, text⟩ := lookup_of_requireStr read
  simp only [ReadableSource, Value.attrs.injEq, forall_eq', given_iff found, text,
    Option.some.injEq]

/-- A source is kept when its optional keys are readable. -/
theorem sourceOf_iff {source : Source} (read : sourceFromAttrs hash fields = .ok source) :
    SourceOf hash (.attrs fields) source ↔ ReadableSource (.attrs fields) := by
  obtain ⟨kind, kindRead, behind⟩ := Fallible.bind_eq_ok_iff.mp read
  rw [readableSource_iff kindRead]
  simp only [SourceOf, Value.attrs.injEq, exists_eq_left']
  have kinds := strOf_of_requireStr kindRead
  -- By the kind of the source; only two of them have an optional key or another part.
  split at behind
  · obtain ⟨content, contentRead, ended⟩ := Fallible.bind_eq_ok_iff.mp behind
    obtain rfl := Except.ok.inj ended
    simpa using ⟨kinds, strOf_of_requireStr contentRead⟩
  · obtain ⟨path, pathRead, ended⟩ := Fallible.bind_eq_ok_iff.mp behind
    obtain rfl := Except.ok.inj ended
    simpa using ⟨kinds, strOf_of_requireStr pathRead⟩
  · obtain ⟨url, urlRead, behind⟩ := Fallible.bind_eq_ok_iff.mp behind
    obtain ⟨rev, revRead, ended⟩ := Fallible.bind_eq_ok_iff.mp behind
    obtain rfl := Except.ok.inj ended
    have switch : Given fields "submodules" _ ↔ _ := switchOf_optionalBool_iff
    simp only [switch, and_iff_right (strOf_of_requireStr urlRead),
      and_iff_right (strOf_of_requireStr revRead)]
    simpa [sourceKind] using fun _ => kinds
  · obtain ⟨url, urlRead, behind⟩ := Fallible.bind_eq_ok_iff.mp behind
    obtain ⟨sum, sumRead, ended⟩ := Fallible.bind_eq_ok_iff.mp behind
    obtain rfl := Except.ok.inj ended
    simpa using ⟨kinds, strOf_of_requireStr urlRead, strOf_of_requireStr sumRead⟩
  · split at behind
    · next v found =>
      obtain ⟨input, inputRead, ended⟩ := Fallible.bind_eq_ok_iff.mp behind
      obtain rfl := Except.ok.inj ended
      have inputs : Given fields "input" (InputOf hash · input) ↔
          Given fields "input" ReadableInput := by
        rw [given_iff found, given_iff found]
        exact inputOf_iff inputRead
      simp only [inputs]
      simpa [sourceKind] using fun _ => kinds
    · cases behind
  · cases behind

/-- A phase is read by its name. -/
theorem strOf_of_phaseFromValue {v : Value (Builders H)} {phase : BuilderPhase}
    (read : phaseFromValue v = .ok phase) : StrOf v (phaseName phase) := by
  unfold phaseFromValue at read
  -- Each of the names stands for one phase.
  split at read <;> cases read
  all_goals
    rename_i text
    exact text

/-- Commands are read item by item. -/
theorem textsOf_of_commandsFromValue {v : Value (Builders H)} {commands : List String}
    (read : commandsFromValue hash v = .ok commands) :
    TextsOf hash v commands ∨ ∃ s, StrOf v s ∧ commands = [s] := by
  -- A list of commands is read item by item, and a string is a single one.
  cases v with
  | list xs =>
    refine .inl ⟨xs, rfl, (Fallible.mapM_eq_ok_iff.mp read).imp fun x s single => ?_⟩
    rw [commandFromValue] at single
    cases text : x.coerceToString hash with
    | none =>
      rw [text] at single
      cases single
    | some s' =>
      rw [text] at single
      rw [TextOf, text, Except.ok.inj single]
  | str s => exact .inr ⟨s, rfl, (Except.ok.inj read).symm⟩
  | _ => cases read

/-- A builder is kept when its phases are a list and its commands are an attribute set. -/
theorem builderOf_iff {builder : BuilderPhases}
    (read : builderFromAttrs hash fields = .ok builder) :
    BuilderOf hash (.attrs fields) builder ↔ ReadableBuilder (.attrs fields) := by
  obtain ⟨phases, phasesRead, behind⟩ := Fallible.bind_eq_ok_iff.mp read
  obtain ⟨commands, commandsRead, ended⟩ := Fallible.bind_eq_ok_iff.mp behind
  obtain rfl := Except.ok.inj ended
  -- Either key is kept if it is of the right shape, since what is in it must have been read.
  have first : Given fields "phases" (PhasesOf · phases) ↔
      Given fields "phases" fun v => ∃ xs, v = .list xs := by
    refine given_congr fun v found => ⟨fun ⟨xs, same, _⟩ => ⟨xs, same⟩, ?_⟩
    rintro ⟨xs, rfl⟩
    rw [optionalPhases, found] at phasesRead
    exact ⟨xs, rfl, (Fallible.mapM_eq_ok_iff.mp phasesRead).imp fun x phase read =>
      strOf_of_phaseFromValue read⟩
  have second : Given fields "commands" (CommandsOf hash · commands) ↔
      Given fields "commands" fun v => ∃ entries, v = .attrs entries := by
    refine given_congr fun v found => ⟨fun ⟨entries, same, _⟩ => ⟨entries, same⟩, ?_⟩
    rintro ⟨entries, rfl⟩
    rw [optionalCommands, found] at commandsRead
    refine ⟨entries, rfl, (Fallible.mapM_eq_ok_iff.mp commandsRead).imp ?_⟩
    intro entry command read
    obtain ⟨texts, textsRead, ended⟩ := Fallible.bind_eq_ok_iff.mp read
    obtain rfl := Except.ok.inj ended
    exact ⟨rfl, textsOf_of_commandsFromValue textsRead⟩
  simp [BuilderOf, ReadableBuilder, first, second]

/-- Outputs are kept when their keys are readable. -/
theorem outputsOf_iff :
    OutputsOf hash (.attrs fields) (outputsFromAttrs hash fields) ↔
      ReadableOutputs hash (.attrs fields) := by
  simp [OutputsOf, ReadableOutputs, outputsFromAttrs, strOf_optionalStr_iff,
    textsOf_optionalTexts_iff]

/-- The sandbox is kept when its keys are readable. -/
theorem sandboxOf_iff :
    SandboxOf hash (.attrs fields) (sandboxFromAttrs hash fields) ↔
      ReadableSandbox hash (.attrs fields) := by
  simp [SandboxOf, ReadableSandbox, sandboxFromAttrs, switchOf_optionalBool_iff,
    textsOf_optionalTexts_iff]

/-- Variables are always kept. -/
theorem envOf_of_partList {env : List EnvVar}
    (read : partList fields "env" envVarFromValue = .ok env) :
    Given fields "env" (EnvOf · env) := by
  -- Both keys of a variable are required, so neither can be dropped.
  intro v found
  obtain ⟨xs, rfl, success⟩ := given_of_partList read v found
  refine ⟨xs, rfl, (Fallible.mapM_eq_ok_iff.mp success).imp fun x var read => ?_⟩
  cases x with
  | attrs fields =>
    obtain ⟨name, named, behind⟩ := Fallible.bind_eq_ok_iff.mp read
    obtain ⟨value, valued, ended⟩ := Fallible.bind_eq_ok_iff.mp behind
    obtain rfl := Except.ok.inj ended
    exact ⟨fields, rfl, strOf_of_requireStr named, strOf_of_requireStr valued⟩
  | _ => cases read

/-- A value with a text is textual. -/
theorem textual_of_strOf {v : Value (Builders H)} {s : String} (text : StrOf v s) : Textual v := by
  rw [Textual, text]
  rfl

/-- A key with two spellings, of which the first one is given. -/
theorem spelledOnce_of_some {other : String} {v : Value (Builders H)}
    (found : fields.lookup key = some v) :
    SpelledOnce fields key other ↔ Textual v ∧ Given fields other fun v' => v'.asStr = v.asStr := by
  rw [SpelledOnce, found]
  exact and_congr_left' (given_iff found)

/-- A key with two spellings, of which the first one is not given. -/
theorem spelledOnce_of_none {other : String} (absent : fields.lookup key = none) :
    SpelledOnce fields key other ↔ Given fields other Textual := by
  rw [SpelledOnce, absent]
  exact and_iff_right (given_of_absent absent)

/-- What is read under one spelling is kept under both when it is spelled once. -/
theorem strOf_iff_spelledOnce {other s : String} {v : Value (Builders H)}
    (found : fields.lookup key = some v) (text : StrOf v s) :
    Given fields key (StrOf · s) ∧ Given fields other (StrOf · s) ↔
      SpelledOnce fields key other := by
  -- What is kept is the text of the first spelling.
  rw [spelledOnce_of_some found, and_iff_right (textual_of_strOf text), given_iff found,
    and_iff_right text, text]
  exact Iff.rfl

/-- A text under two spellings is kept when it is spelled once. -/
theorem strOf_requireEither_iff {other s : String} (read : requireEither fields key other = .ok s) :
    Given fields key (StrOf · s) ∧ Given fields other (StrOf · s) ↔
      SpelledOnce fields key other := by
  rw [requireEither] at read
  cases first : requireStr fields key with
  | ok s' =>
    rw [first] at read
    obtain rfl := Except.ok.inj read
    obtain ⟨v, found, text⟩ := lookup_of_requireStr first
    exact strOf_iff_spelledOnce found text
  | error e =>
    rw [first] at read
    have kept := strOf_of_requireStr read
    cases found : fields.lookup key with
    | none =>
      rw [spelledOnce_of_none found]
      exact iff_of_true ⟨given_of_absent found, kept⟩ fun v found' =>
        textual_of_strOf (kept v found')
    | some v =>
      -- A value under the first spelling that is no string is passed over.
      have none : v.asStr = none := by
        cases text : v.asStr with
        | none => rfl
        | some s' => simp [requireStr, found, text] at first
      rw [spelledOnce_of_some found]
      refine iff_of_false (fun both => ?_) (by simp [Textual, none])
      simpa [StrOf, none] using both.1 v found

/-- So is one that may be missing. -/
theorem held_optionalEither_iff {other : String} :
    Given fields key (Held StrOf (optionalEither fields key other)) ∧
        Given fields other (Held StrOf (optionalEither fields key other)) ↔
      SpelledOnce fields key other := by
  -- By what is under the first spelling: nothing, a value without a text, or a text.
  cases found : fields.lookup key with
  | none =>
    have second : optionalEither fields key other = optionalStr fields other := by
      rw [optionalEither, optionalStr, found]
      rfl
    rw [spelledOnce_of_none found, second, held_optionalStr_iff,
      and_iff_right (given_of_absent found)]
  | some v =>
    cases text : v.asStr with
    | none =>
      rw [spelledOnce_of_some found]
      refine iff_of_false (fun both => ?_) (by simp [Textual, text])
      obtain ⟨s, -, strOf⟩ := both.1 v found
      simp [StrOf, text] at strOf
    | some s =>
      have first : optionalEither fields key other = some s := by
        rw [optionalEither, optionalStr, found, Option.bind_some, text]
        rfl
      have held : Held StrOf (some s) = fun v : Value (Builders H) => StrOf v s := by
        funext v
        simp [Held]
      rw [first, held, strOf_iff_spelledOnce found text]

/-- A bridge is kept when its keys are readable. -/
theorem bridgeOf_iff {bridge : Option BridgeTarget} (read : partBridge fields = .ok bridge) :
    Given fields "bridge" (Held BridgeOf bridge) ↔ Given fields "bridge" ReadableBridge := by
  refine given_congr fun v found => ?_
  rw [partBridge, found] at read
  -- Only a set has keys to lose.
  cases v with
  | attrs inner =>
    obtain ⟨target, targetRead, rfl⟩ := Fallible.map_eq_ok_iff.mp read
    obtain ⟨path, pathRead, ended⟩ := Fallible.bind_eq_ok_iff.mp targetRead
    obtain rfl := Except.ok.inj ended
    simp [Held, BridgeOf, ReadableBridge, strOf_requireEither_iff pathRead, held_optionalEither_iff]
  | str s =>
    obtain rfl := Except.ok.inj read
    exact iff_of_true ⟨_, rfl, .inr ⟨s, rfl, rfl⟩⟩ (by rintro _ ⟨⟩)
  | _ => cases read

/-- An accepted attribute set is kept exactly when its optional keys are readable. -/
theorem kept_iff_readable {d : Nix.Derivation Recipe}
    (accepted : attrsToDerivation hash fields = .ok d) :
    Kept hash fields d ↔ Readable hash fields := by
  obtain ⟨name, nameRead, behind⟩ := Fallible.bind_eq_ok_iff.mp accepted
  obtain ⟨inputs, inputsRead, behind⟩ := Fallible.bind_eq_ok_iff.mp behind
  obtain ⟨source, sourceRead, behind⟩ := Fallible.bind_eq_ok_iff.mp behind
  obtain ⟨builder, builderRead, behind⟩ := Fallible.bind_eq_ok_iff.mp behind
  obtain ⟨outputs, outputsRead, behind⟩ := Fallible.bind_eq_ok_iff.mp behind
  obtain ⟨env, envRead, behind⟩ := Fallible.bind_eq_ok_iff.mp behind
  obtain ⟨sandbox, sandboxRead, behind⟩ := Fallible.bind_eq_ok_iff.mp behind
  obtain ⟨bridge, bridgeRead, ended⟩ := Fallible.bind_eq_ok_iff.mp behind
  obtain rfl := Except.ok.inj ended
  -- Each attribute set inside is kept when its own keys are readable.
  have sources : Given fields "source" (SourceOf hash · source) ↔
      Given fields "source" ReadableSource :=
    given_partAttrs_iff sourceRead fun inner read => sourceOf_iff read
  have builders : Given fields "builder" (BuilderOf hash · builder) ↔
      Given fields "builder" ReadableBuilder :=
    given_partAttrs_iff builderRead fun inner read => builderOf_iff read
  have outputs' : Given fields "outputs" (OutputsOf hash · outputs) ↔
      Given fields "outputs" (ReadableOutputs hash) := by
    refine given_partAttrs_iff outputsRead fun inner read => ?_
    obtain rfl := Except.ok.inj read
    exact outputsOf_iff
  have sandboxes : Given fields "sandbox" (SandboxOf hash · sandbox) ↔
      Given fields "sandbox" (ReadableSandbox hash) := by
    refine given_partAttrs_iff sandboxRead fun inner read => ?_
    obtain rfl := Except.ok.inj read
    exact sandboxOf_iff
  constructor
  · intro kept
    exact ⟨held_optionalStr_iff.mp kept.version, (inputsOf_iff inputsRead).mp kept.inputs,
      sources.mp kept.source, builders.mp kept.builder, outputs'.mp kept.outputs,
      sandboxes.mp kept.sandbox, (bridgeOf_iff bridgeRead).mp kept.bridge⟩
  · intro readable
    exact ⟨strOf_of_requireStr nameRead, held_optionalStr_iff.mpr readable.version,
      (inputsOf_iff inputsRead).mpr readable.inputs, sources.mpr readable.source,
      builders.mpr readable.builder, outputs'.mpr readable.outputs, envOf_of_partList envRead,
      sandboxes.mpr readable.sandbox, (bridgeOf_iff bridgeRead).mpr readable.bridge⟩

/-- Values that one optional field holds are alike. -/
theorem alikeAt_of_held {α : Type} {means : Value (Builders H) → α → Prop} {field : Option α}
    {fields' : Fields H} (held : Given fields key (Held means field))
    (held' : Given fields' key (Held means field)) : AlikeAt fields fields' key means := by
  intro v found v' found'
  -- Both are what the one field holds.
  obtain ⟨a, same, meant⟩ := held v found
  obtain ⟨a', same', meant'⟩ := held' v' found'
  obtain rfl : a = a' := Option.some.inj (same.symm.trans same')
  exact ⟨a, meant, meant'⟩

/-- Attribute sets that one derivation keeps agree. -/
theorem Kept.agree {fields' : Fields H} {d : Nix.Derivation Recipe} (kept : Kept hash fields d)
    (kept' : Kept hash fields' d) : AttributesAgree hash fields fields' where
  name v found v' found' := ⟨_, kept.name v found, kept'.name v' found'⟩
  version := alikeAt_of_held kept.version kept'.version
  inputs v found v' found' := ⟨_, kept.inputs v found, kept'.inputs v' found'⟩
  source v found v' found' := ⟨_, kept.source v found, kept'.source v' found'⟩
  builder v found v' found' := ⟨_, kept.builder v found, kept'.builder v' found'⟩
  outputs v found v' found' := ⟨_, kept.outputs v found, kept'.outputs v' found'⟩
  env v found v' found' := ⟨_, kept.env v found, kept'.env v' found'⟩
  sandbox v found v' found' := ⟨_, kept.sandbox v found, kept'.sandbox v' found'⟩
  bridge := alikeAt_of_held kept.bridge kept'.bridge

/-- The derivation keeps the attributes exactly when the optional keys are readable; and attribute
sets with readable keys and one store path agree. -/
theorem keepsAttributes_iff (collisionFree : Function.Injective hash) :
    (∀ (fields : Fields H) d, attrsToDerivation hash fields = .ok d →
      (Kept hash fields d ↔ Readable hash fields)) ∧
    ∀ (fields fields' : Fields H) d d', attrsToDerivation hash fields = .ok d →
      attrsToDerivation hash fields' = .ok d' → Readable hash fields → Readable hash fields' →
      d.storePath hash = d'.storePath hash → AttributesAgree hash fields fields' := by
  refine ⟨fun fields d accepted => kept_iff_readable accepted, ?_⟩
  intro fields fields' d d' accepted accepted' readable readable' same
  -- The same store path is that of one derivation, which keeps both attribute sets.
  obtain rfl := (Nix.Derivation.storePath_inj collisionFree).mp same
  exact ((kept_iff_readable accepted).mpr readable).agree
    ((kept_iff_readable accepted').mpr readable')

/-- An attribute set that has a name and nothing else besides a version. -/
def versioned (version : Value (Builders emptyHost)) : Fields emptyHost :=
  [("name", .str "web"), ("version", version)]

/-- The derivation of a name and a version. -/
def webDerivation (version : Option String) : Nix.Derivation Recipe :=
  ⟨"web", { version := version }⟩

/-- A version that is a string is kept, and agrees with the same one as a symbol. -/
theorem keepsAttributes_numbered :
    attrsToDerivation Nix.numberedHash (versioned (.str "1.0")) = .ok (webDerivation (some "1.0")) ∧
      Kept Nix.numberedHash (versioned (.str "1.0")) (webDerivation (some "1.0")) ∧
      AttributesAgree Nix.numberedHash (versioned (.str "1.0")) (versioned (.symbol "1.0")) := by
  -- Both are read in one way.
  have accepted : attrsToDerivation Nix.numberedHash (versioned (.str "1.0")) =
    .ok (webDerivation (some "1.0")) := rfl
  have accepted' : attrsToDerivation Nix.numberedHash (versioned (.symbol "1.0")) =
    .ok (webDerivation (some "1.0")) := rfl
  -- The other keys are not there.
  have readable (v : Value (Builders emptyHost)) (textual : Textual v) :
      Readable Nix.numberedHash (versioned v) := by
    constructor
    case version =>
      intro v' found
      obtain rfl : v = v' := Option.some.inj found
      exact textual
    all_goals
      intro v' found
      cases (show none = some v' from found)
  obtain ⟨kept, agree⟩ := keepsAttributes_iff (H := emptyHost) Nix.numberedHash_injective
  exact ⟨accepted, (kept _ _ accepted).mpr (readable _ rfl),
    agree _ _ _ _ accepted accepted' (readable _ rfl) (readable _ rfl) rfl⟩

/-- Versions that are numbers are dropped, and the store paths of two of them are one. -/
theorem not_kept_version :
    attrsToDerivation Nix.numberedHash (versioned (.int 1)) = .ok (webDerivation none) ∧
      attrsToDerivation Nix.numberedHash (versioned (.int 2)) = .ok (webDerivation none) ∧
      ¬ Kept Nix.numberedHash (versioned (.int 1)) (webDerivation none) := by
  refine ⟨rfl, rfl, fun kept => ?_⟩
  obtain ⟨version, dropped, -⟩ := kept.version (.int 1) rfl
  cases dropped

end keeping

end Tatara.Eval
