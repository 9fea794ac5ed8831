import Mathlib.Data.List.Nodup
import Tatara.Reconciler.Claim

/-! The registry after a reconcile of the table: exact, in any order, and stable. -/

namespace Tatara.Reconciler

open Tatara.Rust Tatara.Crd Program

section Registry

/-- Each key has its own entries behind those that it had, in their order. -/
theorem getD_foldl_push (entries : List (String × Candidate)) (groups : Groups) (key : String) :
    (entries.foldl Groups.push groups).getD key [] =
      groups.getD key [] ++ (entries.filter (fun entry => entry.1 = key)).map (·.2) := by
  induction entries generalizing groups with
  | nil => simp
  | cons entry entries ih =>
    rw [List.foldl_cons, ih, Groups.push, Std.ExtTreeMap.getD_insert]
    -- The first entry goes behind the others of its own key, and concerns no other key.
    by_cases same : entry.1 = key
    · simp [same]
    · simp [same]

/-- The candidates of a key are its entries, in their order. -/
theorem getD_groupCandidates (entries : List (String × Candidate)) (key : String) :
    (groupCandidates entries).getD key [] =
      (entries.filter (fun entry => entry.1 = key)).map (·.2) := by
  -- In the beginning no key has any.
  rw [groupCandidates, getD_foldl_push, Std.ExtTreeMap.getD_empty, List.nil_append]

/-- The entry that a key has in the new registry. -/
def newEntry (current : Option ClaimRecord) (candidates : List Candidate) (now : DateTime) :
    Option ClaimRecord :=
  match decideClaimFor current candidates now with
  | .hold => current
  | .transfer next => some next
  | .vacate => none

/-- The decision on one key makes its entry, and leaves those of the others as they are. -/
theorem arbitrateKey_getElem? (current : Claims) (groups : Groups) (now : DateTime)
    (claims : Claims) (key other : String) :
    (arbitrateKey current groups now claims key)[other]? =
      if key = other then
        (newEntry current[other]? (groups.getD other []) now).or claims[other]?
      else claims[other]? := by
  unfold arbitrateKey newEntry
  by_cases same : key = other
  · subst same
    rw [if_pos rfl]
    cases decideClaimFor current[key]? (groups.getD key []) now with
    | hold =>
      -- Nothing is entered for a key that nobody has held.
      cases current[key]? with
      | none => rfl
      | some holder => simp
    | transfer next => simp
    | vacate => rfl
  · -- The decision on one key leaves the entries of the others alone.
    rw [if_neg same]
    cases decideClaimFor current[key]? (groups.getD key []) now with
    | hold =>
      cases current[key]? with
      | none => rfl
      | some holder => simp [Std.ExtTreeMap.getElem?_insert, same]
    | transfer next => simp [Std.ExtTreeMap.getElem?_insert, same]
    | vacate => rfl

/-- After all decisions each key among those decided on has its new entry. -/
theorem foldl_arbitrateKey_getElem? (current : Claims) (groups : Groups) (now : DateTime)
    (keys : List String) (claims : Claims) (key : String) :
    (keys.foldl (arbitrateKey current groups now) claims)[key]? =
      if key ∈ keys then (newEntry current[key]? (groups.getD key []) now).or claims[key]?
      else claims[key]? := by
  induction keys generalizing claims with
  | nil => simp
  | cons first keys ih =>
    rw [List.foldl_cons, ih, arbitrateKey_getElem?]
    by_cases same : first = key
    · -- A key that comes again is decided in the same way again.
      subst same
      cases newEntry current[first]? (groups.getD first []) now with
      | none => simp
      | some entry => simp
    · have other : key ≠ first := Ne.symm same
      simp [same, other]

/-- A key has been seen where it is among those listed, or was seen before. -/
theorem mem_foldl_insert (keys : List String) (seen : Std.ExtTreeMap String Unit) (key : String) :
    key ∈ keys.foldl (fun seen key => seen.insert key ()) seen ↔ key ∈ keys ∨ key ∈ seen := by
  -- By induction on the keys that are listed.
  induction keys generalizing seen with
  | nil => simp
  | cons first keys ih =>
    rw [List.foldl_cons, ih, Std.ExtTreeMap.mem_insert, List.mem_cons, Std.compare_eq_iff_eq,
      eq_comm (a := first)]
    tauto

/-- Every key has the entry that is decided for it. -/
theorem arbitrate_getElem? (current : Claims) (groups : Groups) (now : DateTime) (key : String) :
    (arbitrate current groups now)[key]? =
      newEntry current[key]? (groups.getD key []) now := by
  simp only [arbitrate, foldl_arbitrateKey_getElem?, Std.ExtTreeMap.mem_keys, mem_foldl_insert,
    List.mem_append]
  split
  · simp
  · -- A key without an entry and without a candidate stays without an entry.
    rename_i absent
    have noEntry : current[key]? = none := Std.ExtTreeMap.getElem?_eq_none (by tauto)
    have noGroup : groups.getD key [] = [] := Std.ExtTreeMap.getD_eq_fallback (by tauto)
    rw [noEntry, noGroup]
    simp [newEntry, decideClaimFor, bestCandidate]

/-- The new entry names the best of the live candidates. -/
theorem newEntry_cases (current : Option ClaimRecord) (candidates : List Candidate)
    (now : DateTime) :
    match newEntry current candidates now with
    | none => ∀ c ∈ candidates, c.isLive = false
    | some entry => ∃ c, IsLeastBy Candidate.rank (candidates.filter (·.isLive)) c ∧
        entry.holder = c.processRef ∧ entry.pid = c.pid := by
  unfold newEntry decideClaimFor
  rw [bestCandidate_eq]
  cases found : leastBy Candidate.rank (candidates.filter (·.isLive)) with
  | none =>
    rw [leastBy_eq_none_iff, List.filter_eq_nil_iff] at found
    intro c present
    exact Bool.not_eq_true _ ▸ found c present
  | some winner =>
    have least := isLeastBy_of_leastBy found
    cases current with
    | none => exact ⟨winner, least, rfl, rfl⟩
    | some holder =>
      by_cases same : winner.matchesHolder holder = true
      · -- The holder is kept, with the name and the pid of the winner.
        simp only [same, if_true]
        simp only [Candidate.matchesHolder, Bool.and_eq_true, decide_eq_true_eq] at same
        exact ⟨winner, least, same.1.symm, same.2.symm⟩
      · simp only [same]
        exact ⟨winner, least, rfl, rfl⟩

/-- The entry that is decided for a key is kept when the key is decided again. -/
theorem newEntry_again (current : Option ClaimRecord) (candidates : List Candidate)
    (now later : DateTime) :
    newEntry (newEntry current candidates now) candidates later =
      newEntry current candidates now := by
  have granted (c : Candidate) : c.matchesHolder (c.record now) = true := by
    simp [Candidate.matchesHolder, Candidate.record]
  -- The winner is the same, and by now it is the holder.
  unfold newEntry decideClaimFor
  cases bestCandidate (candidates.filter (·.isLive)) with
  | none => rfl
  | some winner =>
    cases current with
    | none => simp [granted]
    | some holder =>
      by_cases same : winner.matchesHolder holder = true
      · simp [same]
      · simp [same, granted]

end Registry

/-- The clock reading of a call that looks at the clock. -/
def Event.reading : Event → Option DateTime
  | ⟨.now, now⟩ => some now
  | _ => none

/-- The registry that a call asks the API server to store. -/
def Event.claims : Event → Option Claims
  | ⟨.request (.applyClaims claims), _⟩ => some claims
  | _ => none

/-- The registry after a call. -/
def Event.registry (claims : Claims) : Event → Claims
  | ⟨.request (.applyClaims new), .ok _⟩ => new
  | _ => claims

/-- A call of the controller is answered as an API server does that has these Processes and this
registry. -/
def Answered (processes : List Process) (registry : Claims) : Event → Prop
  | ⟨.request .listProcesses, answer⟩ => answer = .ok processes
  | ⟨.request .getProcessTable, answer⟩ =>
    ∃ table, answer = .ok table ∧ currentClaims answer = registry
  | ⟨.request (.applyClaims _), answer⟩ => answer = .ok ()
  | _ => True

/-- A reconcile of the table finds one registry, and leaves another one. -/
structure Settles (config : Config) (processes : List Process) (before : Claims)
    (events : List Event) (after : Claims) : Prop where
  runs : ∃ action, Runs (reconcileTable config) events (.ok action)
  answered : ∀ event ∈ events, Answered processes before event
  leaves : events.foldl Event.registry before = after

/-- The last time that the clock was looked at. -/
def lastReading (events : List Event) : Option DateTime :=
  (events.filterMap Event.reading).getLast?

/-- The candidacies of a Process whose creation is stamped. -/
def declared (config : Config) (p : Process) : List (String × Candidate) :=
  match p.spec.routing with
  | none => []
  | some routing =>
    if !routing.stableNameClaim then []
    else
      routing.hostnames.map fun hostname =>
        (claimKey config hostname, candidate p routing (p.createdAtOr ⟨0⟩))

/-- Those who ask for the name under a key. -/
def candidatesFor (config : Config) (processes : List Process) (key : String) : List Candidate :=
  ((processes.flatMap (declared config)).filter (fun entry => entry.1 = key)).map (·.2)

/-- To see what a Process declares, no claim is written. -/
theorem candidacies_quiet (config : Config) (p : Process) :
    Quiet Event.claims (candidacies config p) := by
  -- Nothing is called but the clock.
  unfold candidacies
  split
  · exact Quiet.pure _
  · split
    · exact Quiet.pure _
    · exact Quiet.bind (Quiet.call fun _ => rfl) fun _ => Quiet.pure _

/-- What comes of a Process with a creation stamp is what it declares. -/
theorem runs_candidacies {config : Config} {p : Process}
    (stamped : p.metadata.creationTimestamp.isSome) {events : List Event}
    {entries : List (String × Candidate)} (runs : Runs (candidacies config p) events entries) :
    entries = declared config p := by
  unfold candidacies at runs
  unfold declared
  cases routed : p.spec.routing with
  | none =>
    rw [routed] at runs
    exact (runs_pure_iff.mp runs).2
  | some routing =>
    rw [routed] at runs
    dsimp only at runs ⊢
    split at runs
    · rw [if_pos ‹_›]
      exact (runs_pure_iff.mp runs).2
    · rw [if_neg ‹_›]
      obtain ⟨front, now, back, -, rest, -⟩ := runs_bind_iff.mp runs
      -- The stamp is what counts, and not the time at which the clock was looked at.
      obtain ⟨stamp, known⟩ := Option.isSome_iff_exists.mp stamped
      have same : p.createdAtOr now = p.createdAtOr ⟨0⟩ := by simp [Process.createdAtOr, known]
      rw [(runs_pure_iff.mp rest).2, same]

/-- What comes of a list of Processes with creation stamps is what they declare, one after the
other. -/
theorem runs_mapM_candidacies {config : Config} {processes : List Process}
    (stamped : ∀ p ∈ processes, p.metadata.creationTimestamp.isSome) {events : List Event}
    {entries : List (List (String × Candidate))}
    (runs : Runs (processes.mapM (candidacies config)) events entries) :
    entries.flatten = processes.flatMap (declared config) := by
  have each := runs_mapM runs
  clear runs
  -- What is declared in each run does not depend on its calls, which only look at the clock.
  induction each with
  | nil => rfl
  | cons first rest ih =>
    obtain ⟨_, runs⟩ := first
    rw [List.flatten_cons, List.flatMap_cons, runs_candidacies (stamped _ List.mem_cons_self) runs,
      ih fun p later => stamped p (List.mem_cons_of_mem _ later)]

/-- Events without a write leave the registry as it is. -/
theorem foldl_registry_of_quiet {events : List Event} (claims : Claims)
    (quiet : events.filterMap Event.claims = []) : events.foldl Event.registry claims = claims := by
  induction events with
  | nil => rfl
  | cons event events ih =>
    obtain ⟨unmarked, rest⟩ := List.filterMap_eq_nil_iff.mp quiet |> List.forall_mem_cons.mp
    -- An event that shows no claims changes none.
    have same : Event.registry claims event = claims := by
      unfold Event.registry
      split
      · cases unmarked
      · rfl
    rw [List.foldl_cons, same, ih (List.filterMap_eq_nil_iff.mpr rest)]

/-- A look at the clock is the last reading when nothing is read behind it. -/
theorem lastReading_eq (front : List Event) (now : DateTime) {back : List Event}
    (blind : back.filterMap Event.reading = []) :
    lastReading (front ++ ⟨.now, now⟩ :: back) = some now := by
  -- Only what is behind it could hide it.
  have seen : Event.reading ⟨.now, now⟩ = some now := rfl
  rw [lastReading, List.filterMap_append, List.filterMap_cons_some seen, blind,
    List.getLast?_concat]

/-- The calls of a reconcile of the table: it patches the registry where the decision differs. -/
theorem runs_reconcileTable {config : Config} {events : List Event} {action : Action}
    (runs : Runs (reconcileTable config) events (.ok action)) :
    ∃ processes first entries table now last,
      events = (⟨.request .listProcesses, .ok processes⟩ :: first ++
        [⟨.request .getProcessTable, table⟩]) ++ ⟨.now, now⟩ :: last ∧
      Runs (processes.mapM (candidacies config)) first entries ∧
      ((arbitrate (currentClaims table) (groupCandidates entries.flatten) now =
          currentClaims table ∧ last = []) ∨
        arbitrate (currentClaims table) (groupCandidates entries.flatten) now ≠
          currentClaims table ∧
        ∃ answer, last = [⟨.request (.applyClaims
          (arbitrate (currentClaims table) (groupCandidates entries.flatten) now)), answer⟩]) := by
  -- The Processes are listed first.
  obtain ⟨_, listing, _, list, rest, rfl⟩ := runs_bind_iff.mp runs
  obtain rfl := runs_call_iff.mp list
  cases listing with
  | error e => cases (runs_pure_iff.mp rest).2
  | ok processes =>
    obtain ⟨_, _, _, work, ended, rfl⟩ := runs_bind_iff.mp rest
    obtain ⟨rfl, -⟩ := runs_pure_iff.mp ended
    -- Then their candidacies are taken down, and the registry is looked up.
    obtain ⟨first, entries, _, candidates, deciding, rfl⟩ := runs_bind_iff.mp work
    obtain ⟨_, table, _, lookup, clock, rfl⟩ := runs_bind_iff.mp deciding
    obtain rfl := runs_call_iff.mp lookup
    obtain ⟨_, now, last, reading, patching, rfl⟩ := runs_bind_iff.mp clock
    obtain rfl := runs_call_iff.mp reading
    refine ⟨processes, first, entries, table, now, last, by simp, candidates, ?_⟩
    dsimp only at patching
    -- The patch is sent only if it changes something.
    split at patching
    · rename_i changed
      obtain ⟨_, answer, _, patch, ended, rfl⟩ := runs_bind_iff.mp patching
      obtain rfl := runs_call_iff.mp patch
      obtain ⟨rfl, -⟩ := runs_pure_iff.mp ended
      exact .inr ⟨changed, answer, rfl⟩
    · rename_i unchanged
      exact .inl ⟨not_not.mp unchanged, (runs_pure_iff.mp patching).1⟩

/-- What a reconcile of the table comes to, by the time at which it decides. -/
theorem Settles.after_eq {config : Config} {processes : List Process} {before after : Claims}
    {events : List Event} (settles : Settles config processes before events after)
    (stamped : ∀ p ∈ processes, p.metadata.creationTimestamp.isSome) :
    ∃ now, lastReading events = some now ∧
      after = arbitrate before (groupCandidates (processes.flatMap (declared config))) now ∧
        (after = before → events.filterMap Event.claims = []) := by
  obtain ⟨⟨action, runs⟩, answered, leaves⟩ := settles
  obtain ⟨listed, first, entries, table, now, last, rfl, candidates, decided⟩ :=
    runs_reconcileTable runs
  -- The server answers with the Processes and with the registry that there are.
  have same : listed = processes := by
    have answer := answered ⟨.request .listProcesses, .ok listed⟩ (by simp)
    exact Except.ok.inj answer
  subst same
  obtain ⟨_, -, found⟩ := answered ⟨.request .getProcessTable, table⟩ (by simp)
  rw [found, runs_mapM_candidacies stamped candidates] at decided
  have silent : first.filterMap Event.claims = [] :=
    Quiet.mapM listed (candidacies_quiet config) _ _ candidates
  refine ⟨now, ?_⟩
  obtain ⟨unchanged, rfl⟩ | ⟨changed, answer, rfl⟩ := decided
  · -- Without a change nothing is patched.
    have quiet : List.filterMap Event.claims ((⟨.request .listProcesses, .ok listed⟩ :: first ++
        [⟨.request .getProcessTable, table⟩]) ++ [⟨.now, now⟩]) = [] := by
      rw [List.filterMap_append, List.filterMap_append, List.filterMap_cons_none rfl, silent]
      rfl
    rw [foldl_registry_of_quiet before quiet] at leaves
    refine ⟨?_, leaves ▸ unchanged.symm, fun _ => quiet⟩
    exact lastReading_eq _ now rfl
  · have success : answer = .ok () := answered ⟨.request (.applyClaims _), answer⟩ (by simp)
    subst success
    -- The patch is the last call, and what it carries is what the registry is afterwards.
    have patched : after =
        arbitrate before (groupCandidates (listed.flatMap (declared config))) now := by
      rw [← leaves]
      simp [Event.registry]
    refine ⟨?_, patched, fun same => absurd (patched ▸ same) changed⟩
    exact lastReading_eq _ now rfl

/-- The Process asks for the stable name under a key. -/
def Asks (config : Config) (key : String) (p : Process) : Prop :=
  ∃ routing, p.spec.routing = some routing ∧ routing.stableNameClaim = true ∧
    ∃ hostname ∈ routing.hostnames, claimKey config hostname = key

/-- The Process asks for the stable name, and is in a phase in which it may hold it. -/
def Contends (config : Config) (key : String) (p : Process) : Prop :=
  Asks config key p ∧ p.observedPhaseOrPending ∈ livePhasesForClaim

/-- The priority with which a Process asks for stable names. -/
def claimPriority (p : Process) : Int := (p.spec.routing.map (·.priority)).getD 0

/-- The first Process comes before the second one: it has the higher priority, or else it is the
older one, or else its reference is the smaller one. -/
def Outranks (p q : Process) : Prop :=
  claimPriority q < claimPriority p ∨
    claimPriority p = claimPriority q ∧
      ((p.createdAtOr ⟨0⟩).nanos < (q.createdAtOr ⟨0⟩).nanos ∨
        p.createdAtOr ⟨0⟩ = q.createdAtOr ⟨0⟩ ∧ p.qualifiedRef < q.qualifiedRef)

/-- The one that is to hold a stable name. -/
structure IsWinner (config : Config) (processes : List Process) (key : String) (p : Process) :
    Prop where
  listed : p ∈ processes
  contends : Contends config key p
  first : ∀ q ∈ processes, Contends config key q → q ≠ p → Outranks p q

/-- Every stable name is held by the one that is to hold it, and by nobody where there is none. -/
def Arbitrated (config : Config) (processes : List Process) (claims : Claims) : Prop :=
  ∀ key, match claims[key]? with
    | some entry => ∃ p, IsWinner config processes key p ∧ entry.holder = p.qualifiedRef ∧
        entry.pid = p.observedPid.getD ""
    | none => ∀ p ∈ processes, ¬ Contends config key p

/-- A Process as the candidate that it is under every key. -/
def standing (p : Process) : Candidate :=
  { processRef := p.qualifiedRef
    pid := p.observedPid.getD ""
    priority := claimPriority p
    phase := p.observedPhaseOrPending
    createdAt := p.createdAtOr ⟨0⟩ }

/-- To outrank another Process is to stand in front of it in the order of ranks. -/
theorem outranks_iff {p q : Process} : Outranks p q ↔ (standing p).rank < (standing q).rank := by
  -- Both of them compare the same parts, one after the other.
  rw [Candidate.rank_lt_iff]
  rfl

/-- The candidates for a key are the standings of the Processes that ask for it. -/
theorem mem_candidatesFor {config : Config} {processes : List Process} {key : String}
    {c : Candidate} :
    c ∈ candidatesFor config processes key ↔
      ∃ p ∈ processes, Asks config key p ∧ standing p = c := by
  have one (p : Process) :
      (key, c) ∈ declared config p ↔ Asks config key p ∧ standing p = c := by
    unfold declared Asks
    cases routed : p.spec.routing with
    | none => simp
    | some routing =>
      -- Whatever the hostname is, the Process stands as the same candidate.
      have same : candidate p routing (p.createdAtOr ⟨0⟩) = standing p := by
        simp [candidate, standing, claimPriority, routed]
      cases asks : routing.stableNameClaim with
      | false => simp [asks]
      | true => simp [asks, same, ← and_assoc]
  simp only [candidatesFor, List.mem_map, List.mem_filter, List.mem_flatMap, ← one]
  constructor
  · intro found
    -- The candidates of a key are what is declared under it.
    obtain ⟨⟨key', c'⟩, ⟨⟨p, listed, entry⟩, here⟩, rfl⟩ := found
    have here : key' = key := of_decide_eq_true here
    subst here
    exact ⟨p, listed, entry⟩
  · intro found
    obtain ⟨p, listed, entry⟩ := found
    exact ⟨(key, c), ⟨⟨p, listed, entry⟩, decide_eq_true rfl⟩, rfl⟩

/-- A standing is live if the phase that is observed of its Process is. -/
theorem isLive_standing {p : Process} :
    (standing p).isLive = true ↔ p.observedPhaseOrPending ∈ livePhasesForClaim := by
  exact decide_eq_true_iff

section Distinct

variable {config : Config} {processes : List Process}
  (distinct : (processes.map Process.qualifiedRef).Nodup)

include distinct

/-- Processes of the same rank are the same, since each has its own reference. -/
theorem eq_of_rank {p q : Process} (listedP : p ∈ processes) (listedQ : q ∈ processes)
    (same : (standing p).rank = (standing q).rank) : p = q := by
  -- The reference is the last part of the rank.
  have ref : (standing p).processRef = (standing q).processRef :=
    congrArg (fun rank => (ofLex (ofLex rank).2).2) same
  exact List.inj_on_of_nodup_map distinct listedP listedQ ref

/-- What has been arbitrated gives each key to the Process of the highest rank that contends for it.
-/
theorem arbitrate_arbitrated (before : Claims) (now : DateTime) :
    Arbitrated config processes
      (arbitrate before (groupCandidates (processes.flatMap (declared config))) now) := by
  intro key
  rw [arbitrate_getElem?, getD_groupCandidates]
  have cases := newEntry_cases before[key]? (candidatesFor config processes key) now
  unfold candidatesFor at cases
  split at cases
  · rename_i vacant
    rw [vacant]
    intro p listed contends
    -- Whoever contends would be a live candidate.
    have dead := cases _ (mem_candidatesFor.mpr ⟨p, listed, contends.1, rfl⟩)
    rw [isLive_standing.mpr contends.2] at dead
    cases dead
  · rename_i entry held
    rw [held]
    obtain ⟨c, ⟨among, least⟩, holder, pid⟩ := cases
    obtain ⟨present, live⟩ := List.mem_filter.mp among
    obtain ⟨p, listed, asks, rfl⟩ := mem_candidatesFor.mp present
    refine ⟨p, ⟨listed, ⟨asks, isLive_standing.mp live⟩, ?_⟩, holder, pid⟩
    -- No other Process is level with the winner, because none has the same reference.
    intro q listedQ contends other
    have behind := least (standing q) (List.mem_filter.mpr
      ⟨mem_candidatesFor.mpr ⟨q, listedQ, contends.1, rfl⟩, isLive_standing.mpr contends.2⟩)
    rw [outranks_iff]
    refine lt_of_le_of_ne behind fun same => ?_
    exact other (eq_of_rank distinct listedQ listed same.symm)

/-- The order of the listing has no influence on the entry of a key. -/
theorem newEntry_perm {listed : List Process} (perm : listed.Perm processes)
    (current : Option ClaimRecord) (key : String) (now : DateTime) :
    newEntry current (candidatesFor config listed key) now =
      newEntry current (candidatesFor config processes key) now := by
  have best : bestCandidate ((candidatesFor config listed key).filter (·.isLive)) =
      bestCandidate ((candidatesFor config processes key).filter (·.isLive)) := by
    rw [bestCandidate_eq, bestCandidate_eq]
    -- The least of a list depends on its members alone, as no two of them are level.
    refine leastBy_congr ?_ fun c => ?_
    · intro c among d amongD same
      obtain ⟨p, listedP, -, rfl⟩ := mem_candidatesFor.mp (List.mem_filter.mp among).1
      obtain ⟨q, listedQ, -, rfl⟩ := mem_candidatesFor.mp (List.mem_filter.mp amongD).1
      rw [eq_of_rank distinct listedP listedQ same]
    · simp only [List.mem_filter, mem_candidatesFor, perm.mem_iff]
  unfold newEntry decideClaimFor
  rw [best]

/-- The order in which the Processes are listed makes no difference to the registry. -/
theorem arbitrate_perm {listed : List Process} (perm : listed.Perm processes) (before : Claims)
    (now : DateTime) :
    arbitrate before (groupCandidates (listed.flatMap (declared config))) now =
      arbitrate before (groupCandidates (processes.flatMap (declared config))) now := by
  -- Key by key the same candidates are there.
  refine Std.ExtTreeMap.ext_getElem? fun key => ?_
  rw [arbitrate_getElem?, arbitrate_getElem?, getD_groupCandidates, getD_groupCandidates]
  exact newEntry_perm distinct perm before[key]? key now

/-- A registry that has been arbitrated is left as it is. -/
theorem arbitrate_again {listed : List Process} (perm : listed.Perm processes) (before : Claims)
    (now later : DateTime) :
    arbitrate (arbitrate before (groupCandidates (processes.flatMap (declared config))) now)
        (groupCandidates (listed.flatMap (declared config))) later =
      arbitrate before (groupCandidates (processes.flatMap (declared config))) now := by
  -- A new arbitration among the same candidates finds its own winner.
  rw [arbitrate_perm distinct perm]
  refine Std.ExtTreeMap.ext_getElem? fun key => ?_
  rw [arbitrate_getElem?, arbitrate_getElem?]
  exact newEntry_again _ _ now later

end Distinct

/-- The answers of an API server that has these Processes and this registry, at one instant. -/
def tableAnswers (processes : List Process) (registry : Claims) (now : DateTime) :
    (c : Call) → Answer c
  | .now => now
  | .request .listProcesses => .ok processes
  | .request .getProcessTable => .ok (some { nextSequence := 1, claims := some registry })
  | .request (.applyClaims _) => .ok ()
  -- The controller of the table has no other requests.
  | .request _ => .error ""

/-- The fixed answers are those of a server with these Processes and this registry. -/
theorem answered_tableAnswers (processes : List Process) (registry : Claims) (now : DateTime)
    (c : Call) : Answered processes registry ⟨c, tableAnswers processes registry now c⟩ := by
  -- Call by call the server answers from what it stores.
  unfold Answered
  split
  · rename_i same
    cases same
    rfl
  · rename_i same
    cases same
    exact ⟨_, rfl, rfl⟩
  · rename_i same
    cases same
    rfl
  · trivial

/-- A reconcile of the table succeeds where its listing is answered. -/
theorem reconcileTable_ok {config : Config} {processes : List Process} {before : Claims}
    {events : List Event} {outcome : Except String Action}
    (runs : Runs (reconcileTable config) events outcome)
    (answered : ∀ event ∈ events, Answered processes before event) :
    ∃ action, outcome = .ok action := by
  obtain ⟨_, listing, _, list, rest, rfl⟩ := runs_bind_iff.mp runs
  obtain rfl := runs_call_iff.mp list
  -- Only a listing that fails makes the reconcile fail.
  obtain rfl : listing = .ok processes :=
    answered ⟨.request .listProcesses, listing⟩ (by simp)
  obtain ⟨_, action, _, -, ended, -⟩ := runs_bind_iff.mp rest
  exact ⟨action, (runs_pure_iff.mp ended).2⟩

/-- Whatever is stored and whatever the time, the reconcile of the table has a run. -/
theorem exists_settles (config : Config) {processes : List Process}
    (stamped : ∀ p ∈ processes, p.metadata.creationTimestamp.isSome) (before : Claims)
    (now : DateTime) :
    ∃ events after, Settles config processes before events after ∧
      lastReading events = some now := by
  have answered := play_answered (tableAnswers processes before now) (reconcileTable config)
  have runs := runs_play (tableAnswers processes before now) (reconcileTable config)
  generalize (reconcileTable config).play (tableAnswers processes before now) = played at *
  have served : ∀ event ∈ played.1, Answered processes before event := by
    intro event among
    have answer := answered event among
    obtain ⟨c, reply⟩ := event
    obtain rfl : reply = tableAnswers processes before now c := answer
    exact answered_tableAnswers processes before now c
  obtain ⟨action, success⟩ := reconcileTable_ok runs served
  have settles : Settles config processes before played.1
      (played.1.foldl Event.registry before) := ⟨⟨action, success ▸ runs⟩, served, rfl⟩
  refine ⟨_, _, settles, ?_⟩
  -- Whenever the controller looks at the clock, it shows the same time.
  obtain ⟨shown, reading, -⟩ := settles.after_eq stamped
  obtain ⟨event, among, seen⟩ := List.mem_filterMap.mp (List.mem_of_getLast? reading)
  have answer := answered event among
  unfold Event.reading at seen
  split at seen
  · rw [reading, ← seen]
    exact congrArg some answer
  · cases seen

/-- A reconcile of the table leaves exactly the winners in the registry, whatever the order in which
the Processes are listed, and one that follows it changes nothing. -/
theorem settles_arbitrated (config : Config) (processes : List Process)
    (distinct : (processes.map Process.qualifiedRef).Nodup)
    (stamped : ∀ p ∈ processes, p.metadata.creationTimestamp.isSome) (before : Claims) :
    (∀ now, ∃ events after, Settles config processes before events after ∧
        lastReading events = some now) ∧
      ∀ events after, Settles config processes before events after →
        Arbitrated config processes after ∧
        (∀ listed events' again, listed.Perm processes →
          Settles config listed before events' again →
          lastReading events' = lastReading events → again = after) ∧
        ∀ listed events' again, listed.Perm processes →
          Settles config listed after events' again →
          again = after ∧ events'.filterMap Event.claims = [] := by
  refine ⟨exists_settles config stamped before, ?_⟩
  intro events after settles
  obtain ⟨now, reading, rfl, -⟩ := settles.after_eq stamped
  have stampedIn {listed : List Process} (perm : listed.Perm processes) :
      ∀ p ∈ listed, p.metadata.creationTimestamp.isSome :=
    fun p among => stamped p (perm.mem_iff.mp among)
  refine ⟨arbitrate_arbitrated distinct before now, ?_, ?_⟩
  · intro listed events' again perm settles' together
    obtain ⟨now', reading', rfl, -⟩ := settles'.after_eq (stampedIn perm)
    -- Both have decided at the same time.
    rw [reading, reading', Option.some.injEq] at together
    subst together
    exact arbitrate_perm distinct perm before now'
  · intro listed events' again perm settles'
    obtain ⟨later, -, rfl, quiet⟩ := settles'.after_eq (stampedIn perm)
    -- What is decided later is what has been decided, and so there is nothing to patch.
    refine ⟨?_, quiet ?_⟩
    · exact arbitrate_again distinct perm before now later
    · exact arbitrate_again distinct perm before now later

/-- The routing that asks for the stable names of apps. -/
def claimedRouting (apps : List String) : RoutingSpec :=
  { hostnames := apps.map fun app => { app, hostInstance := none, cluster := none }
    stableNameClaim := true
    rest := .null }

/-- A Process that asks for the stable names of apps, and answers already. -/
def claimant (name : String) (created : Int) (apps : List String) : Process :=
  { metadata := { name, creationTimestamp := some ⟨created⟩ }
    spec := { intent := {}, routing := some (claimedRouting apps), rest := .null }
    status := some { phase := .attested } }

/-- Two Processes that claim one key are arbitrated, whatever the clock shows. -/
theorem settles_arbitrated_claimants :
    (∀ now, ∃ events after,
      Settles plainConfig [claimant "young" 2 ["api"], claimant "old" 1 ["api"]] ∅ events after ∧
        lastReading events = some now) ∧
      ∀ events after,
        Settles plainConfig [claimant "young" 2 ["api"], claimant "old" 1 ["api"]] ∅ events after →
        Arbitrated plainConfig [claimant "young" 2 ["api"], claimant "old" 1 ["api"]] after :=
  -- The two Processes have stamps, and names of their own.
  have whole := settles_arbitrated plainConfig
    [claimant "young" 2 ["api"], claimant "old" 1 ["api"]] (by decide) (by decide) ∅
  ⟨whole.1, fun events after settles => (whole.2 events after settles).1⟩

end Tatara.Reconciler
