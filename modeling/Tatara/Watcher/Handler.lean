import Mathlib.Logic.Function.Basic
import Tatara.Crd.Allocation
import Tatara.Lib.Machine

/-! The watcher of pull requests, which asks for an allocation while a request is open, and in which
runs its newest event wins. -/

namespace Tatara.Watcher

open Tatara.Rust Tatara.Crd Tatara.Steps

/-- What has happened to a pull request. -/
inductive PrAction where
  | opened
  | reopened
  | synchronize
  | closed
  | other
  deriving DecidableEq, Repr

/-- A branch of a pull request. -/
structure Branch where
  refName : String
  sha : String

/-- The pull request of an event. -/
structure PullRequest where
  head : Branch
  draft : Option Bool
  labels : List String
  user : String

/-- `PullRequestEvent`. -/
structure PullRequestEvent where
  action : PrAction
  number : UInt64
  repository : String
  pullRequest : PullRequest

/-- `WatcherConfig`. -/
structure WatcherConfig where
  namespace_ : String
  pinPool : Option String
  includeDrafts : Bool
  allowRepos : List String

/-- `FactoryError`. -/
inductive FactoryError where
  | notAllocatable (action : PrAction)
  | draftExcluded

/-- The longest part of a repository in the name of an allocation. -/
def maxRepoLength : Nat := 50

/-- `allocation_name`. -/
def allocationName (repo : String) (prNumber : UInt64) : String :=
  let safeRepo := repo.toList.map fun c => if c.isAlphanum ∨ c = '-' then c else '-'
  String.ofList (("pr-".toList ++ renderNat prNumber.toNat ++ '-' ::
    safeRepo.take maxRepoLength).map Char.toLower)

/-- `format_action`. -/
def formatAction : PrAction → String
  | .opened => "opened"
  | .reopened => "reopened"
  | .synchronize => "synchronize"
  | .closed => "closed"
  | .other => "other"

/-- `build_allocation`. -/
def buildAllocation (evt : PullRequestEvent) (namespace_ : String) (poolName : Option String)
    (includeDrafts : Bool) : Except FactoryError EphemeralAllocation :=
  match evt.action with
  | .closed | .other => .error (.notAllocatable evt.action)
  | .opened | .reopened | .synchronize =>
    if !includeDrafts && evt.pullRequest.draft.getD false then .error .draftExcluded
    else
      .ok
        { metadata := { name := allocationName evt.repository evt.number, ns := some namespace_ }
          spec :=
            { poolRef := poolName.map fun n => ⟨n, namespace_⟩
              requestor :=
                { kind := "github-pr"
                  repo := some evt.repository
                  branch := some evt.pullRequest.head.refName
                  prNumber := some evt.number
                  sha := some evt.pullRequest.head.sha
                  prLabels := evt.pullRequest.labels
                  actor := some evt.pullRequest.user }
              note := some ("github webhook: PR #" ++ renderU64 evt.number ++ " on " ++
                evt.repository ++ " (" ++ formatAction evt.action ++ ")") } }

/-- `repo_matches`. -/
def repoMatches (pattern repo : String) : Bool :=
  if "/*".toList.isSuffixOf pattern.toList then
    (pattern.toList.dropLast).isPrefixOf repo.toList
  else pattern == repo

/-- `repo_allowed`, where an empty list allows every repository. -/
def repoAllowed (config : WatcherConfig) (repo : String) : Bool :=
  config.allowRepos.isEmpty || config.allowRepos.any (repoMatches · repo)

/-- An answer to a webhook. -/
structure Response where
  status : Nat
  text : String

/-- The allocation objects of the namespace, by name. -/
abbrev Allocations := String → Option EphemeralAllocation

/-- What the server of the objects takes for a name, and how its errors read. -/
structure Server where
  acceptsName : String → Bool
  renderError : Nat → String

/-- A creation, which a name that is taken stops. -/
def createAllocation (server : Server) (allocations : Allocations) (alloc : EphemeralAllocation) :
    Except Nat Allocations :=
  if !server.acceptsName alloc.metadata.name then .error 422
  else
    match allocations alloc.metadata.name with
    | some _ => .error 409
    | none => .ok (Function.update allocations alloc.metadata.name (some alloc))

/-- A deletion, which only marks an object that has finalizers. -/
def deleteAllocation (allocations : Allocations) (name : String) (now : DateTime) :
    Except Nat Allocations :=
  match allocations name with
  | none => .error 404
  | some alloc =>
    if (alloc.metadata.finalizers.getD []).isEmpty then .ok (Function.update allocations name none)
    else if alloc.isBeingDeleted then .ok allocations
    else
      .ok (Function.update allocations name
        (some { alloc with metadata := { alloc.metadata with deletionTimestamp := some now } }))

/-- The finalizers of an object that is being deleted have all been removed. -/
def completeDeletion (allocations : Allocations) (name : String) : Allocations :=
  match allocations name with
  | none => allocations
  | some alloc =>
    if alloc.isBeingDeleted then Function.update allocations name none else allocations

/-- A finalizer is put on an object that is not being deleted. -/
def addFinalizer (allocations : Allocations) (name finalizer : String) : Allocations :=
  match allocations name with
  | none => allocations
  | some alloc =>
    if alloc.isBeingDeleted then allocations
    else
      Function.update allocations name (some { alloc with
        metadata := { alloc.metadata with
          finalizers := some (alloc.metadata.finalizers.getD [] ++ [finalizer]) } })

/-- `handle_pr_event`. -/
def handlePrEvent (config : WatcherConfig) (server : Server) (evt : PullRequestEvent)
    (now : DateTime) (allocations : Allocations) : Response × Allocations :=
  if !repoAllowed config evt.repository then (⟨200, "repo not in allowlist"⟩, allocations)
  else
    match evt.action with
    | .closed =>
      match deleteAllocation allocations (allocationName evt.repository evt.number) now with
      | .ok rest => (⟨200, "allocation deleted"⟩, rest)
      | .error code =>
        if code = 404 then (⟨200, "allocation already gone"⟩, allocations)
        else (⟨500, "delete: " ++ server.renderError code⟩, allocations)
    | .opened | .reopened | .synchronize =>
      match buildAllocation evt config.namespace_ config.pinPool config.includeDrafts with
      | .error .draftExcluded => (⟨200, "draft excluded"⟩, allocations)
      | .error (.notAllocatable _) => (⟨200, "action not allocatable"⟩, allocations)
      | .ok alloc =>
        match createAllocation server allocations alloc with
        | .ok grown => (⟨201, "allocation created"⟩, grown)
        | .error code =>
          -- What is stored under the name is not looked at.
          if code = 409 then (⟨200, "allocation already exists (synchronize)"⟩, allocations)
          else (⟨500, "create: " ++ server.renderError code⟩, allocations)
    | .other => (⟨200, "action ignored"⟩, allocations)

/-! ### The events of one pull request -/

/-- The event leaves the pull request open. -/
def PrAction.Opens : PrAction → Prop
  | .opened | .reopened | .synchronize => True
  | .closed | .other => False

instance : DecidablePred PrAction.Opens
  | .opened | .reopened | .synchronize => .isTrue trivial
  | .closed | .other => .isFalse id

/-- An event of a pull request that is not a draft, by which it is opened, changed or closed. -/
structure RequestEvent (repository : String) (number : UInt64) where
  evt : PullRequestEvent
  ofRepository : evt.repository = repository
  ofNumber : evt.number = number
  notDraft : evt.pullRequest.draft.getD false = false
  known : evt.action ≠ .other

variable {repository : String} {number : UInt64}

variable (repository number) in
/-- What happens to the allocation of a pull request. -/
inductive Happening where
  | webhook (event : RequestEvent repository number) (now : DateTime)
  | finalizer (key : String)
  | deletionCompletes

variable (repository number) in
/-- The objects, and the newest event of the pull request. -/
structure Watched where
  allocations : Allocations
  newest : Option (RequestEvent repository number) := none

variable (repository number) in
/-- The allocation that is stored for the pull request. -/
def Watched.stored? (s : Watched repository number) : Option EphemeralAllocation :=
  s.allocations (allocationName repository number)

variable (config : WatcherConfig) (server : Server)

/-- The state after what happens. -/
def happen (s : Watched repository number) : Happening repository number → Watched repository number
  | .webhook event now =>
    { allocations := (handlePrEvent config server event.evt now s.allocations).2
      newest := some event }
  | .finalizer key =>
    { s with allocations := addFinalizer s.allocations (allocationName repository number) key }
  | .deletionCompletes =>
    { s with allocations := completeDeletion s.allocations (allocationName repository number) }

variable {config server} {s : Watched repository number}

variable (s) in
/-- The newest event wins: once a deletion under way is over there is an allocation for the head of
a request that is left open, and none but one that is being deleted for a closed one. -/
def Watched.Newest : Prop :=
  ∀ event, s.newest = some event →
    if event.evt.action.Opens then
      ∃ alloc,
        completeDeletion s.allocations (allocationName repository number)
            (allocationName repository number) = some alloc ∧
          alloc.spec.requestor.sha = some event.evt.pullRequest.head.sha
    else ∀ alloc, s.stored? = some alloc → alloc.isBeingDeleted = true

variable (config server s) in
/-- An event that leaves the request open comes where an allocation can be created, or where the
one there is stays and is for the same head. -/
def Timely : Happening repository number → Prop
  | .webhook event _ =>
    event.evt.action.Opens →
      match s.stored? with
      | none =>
        repoAllowed config repository = true ∧
          server.acceptsName (allocationName repository number) = true
      | some alloc =>
        alloc.isBeingDeleted = false ∧
          alloc.spec.requestor.sha = some event.evt.pullRequest.head.sha
  | .finalizer _ | .deletionCompletes => True

/-- The object of a name outlives the deletions under way exactly if it is not being deleted. -/
theorem completeDeletion_eq_some_iff {allocations : Allocations} {name : String}
    {alloc : EphemeralAllocation} :
    completeDeletion allocations name name = some alloc ↔
      allocations name = some alloc ∧ alloc.isBeingDeleted = false := by
  -- An object that is being deleted goes, and any other one stays as it is.
  unfold completeDeletion
  cases stored : allocations name with
  | none => simp [stored]
  | some kept =>
    cases deleted : kept.isBeingDeleted with
    | true =>
      have gone : kept = alloc → alloc.isBeingDeleted = true := by
        rintro rfl
        exact deleted
      simpa [deleted] using gone
    | false =>
      have stays : kept = alloc → alloc.isBeingDeleted = false := by
        rintro rfl
        exact deleted
      simpa [deleted, stored] using stays

/-- An object that has a finalizer more is otherwise as before. -/
theorem addFinalizer_eq_some {allocations : Allocations} {name key : String}
    {alloc : EphemeralAllocation} (stored : addFinalizer allocations name key name = some alloc) :
    ∃ before, allocations name = some before ∧ before.spec = alloc.spec ∧
      before.isBeingDeleted = alloc.isBeingDeleted := by
  -- Only an object that is there and not being deleted is written.
  unfold addFinalizer at stored
  cases present : allocations name with
  | none => simp [present] at stored
  | some before =>
    refine ⟨before, rfl, ?_⟩
    simp only [present] at stored
    split at stored
    · cases present.symm.trans stored
      exact ⟨rfl, rfl⟩
    · rw [Function.update_self] at stored
      cases stored
      exact ⟨rfl, rfl⟩

/-- A finalizer is added to what is stored, and it changes neither the spec nor the deletion. -/
theorem exists_addFinalizer {allocations : Allocations} {name : String} (key : String)
    {before : EphemeralAllocation} (stored : allocations name = some before) :
    ∃ alloc, addFinalizer allocations name key name = some alloc ∧ alloc.spec = before.spec ∧
      alloc.isBeingDeleted = before.isBeingDeleted := by
  -- The object is written again unless it is being deleted.
  unfold addFinalizer
  simp only [stored]
  split
  · exact ⟨before, stored, rfl, rfl⟩
  · exact ⟨_, Function.update_self .., rfl, rfl⟩

/-- A deletion leaves nothing under the name, or an object that is being deleted. -/
theorem deleteAllocation_ok {allocations rest : Allocations} {name : String} {now : DateTime}
    (deleted : deleteAllocation allocations name now = .ok rest) {alloc : EphemeralAllocation}
    (stored : rest name = some alloc) : alloc.isBeingDeleted = true := by
  -- Without finalizers nothing is left; with them the mark is set, or was set before.
  unfold deleteAllocation at deleted
  split at deleted
  · cases deleted
  · next before present =>
    split at deleted
    · cases deleted
      simp at stored
    · split at deleted
      · next already =>
        cases deleted
        cases present.symm.trans stored
        exact already
      · cases deleted
        rw [Function.update_self] at stored
        cases stored
        rfl

/-- A deletion only fails for what is not there. -/
theorem deleteAllocation_error {allocations : Allocations} {name : String} {now : DateTime}
    {code : Nat} (failed : deleteAllocation allocations name now = .error code) :
    code = 404 ∧ allocations name = none := by
  -- The only deletion that fails is that of an object that is not there.
  unfold deleteAllocation at failed
  split at failed
  · cases failed
    exact ⟨rfl, ‹_›⟩
  · split at failed
    · cases failed
    · split at failed <;> cases failed

section Webhook

variable {event : RequestEvent repository number} {now : DateTime}

/-- A repository that is not allowed changes no allocation. -/
theorem handlePrEvent_of_not_allowed (denied : repoAllowed config repository = false)
    (allocations : Allocations) :
    (handlePrEvent config server event.evt now allocations).2 = allocations := by
  -- The allowlist is asked before anything else.
  unfold handlePrEvent
  rw [event.ofRepository, denied]
  rfl

/-- Of the known actions only closing does not open. -/
theorem not_opens_iff : ¬ event.evt.action.Opens ↔ event.evt.action = .closed := by
  have known := event.known
  cases action : event.evt.action <;> simp_all [PrAction.Opens]

/-- An event that leaves the request open is for an allocation of its own head. -/
theorem buildAllocation_of_opens (opens : event.evt.action.Opens) (namespace_ : String)
    (poolName : Option String) (includeDrafts : Bool) :
    ∃ alloc, buildAllocation event.evt namespace_ poolName includeDrafts = .ok alloc ∧
      alloc.metadata.name = allocationName repository number ∧ alloc.isBeingDeleted = false ∧
      alloc.spec.requestor.sha = some event.evt.pullRequest.head.sha := by
  -- The action is one of the three that ask for an allocation, and the request is no draft.
  obtain ⟨evt, rfl, rfl, notDraft, known⟩ := event
  dsimp only at opens ⊢
  unfold buildAllocation
  simp only [notDraft, Bool.and_false]
  cases action : evt.action <;> rw [action] at opens
  case closed => exact opens.elim
  case other => exact opens.elim
  all_goals exact ⟨_, rfl, rfl, rfl, rfl⟩

/-- What is under the name after an event that leaves the request open. -/
theorem stored?_handlePrEvent_of_opens (opens : event.evt.action.Opens)
    (allocations : Allocations) :
    ∃ fresh, fresh.isBeingDeleted = false ∧
      fresh.spec.requestor.sha = some event.evt.pullRequest.head.sha ∧
      (handlePrEvent config server event.evt now allocations).2 (allocationName repository number) =
        match allocations (allocationName repository number) with
        | some alloc => some alloc
        | none =>
          if repoAllowed config repository && server.acceptsName (allocationName repository number)
          then some fresh else none := by
  obtain ⟨fresh, built, named, kept, headed⟩ :=
    buildAllocation_of_opens opens config.namespace_ config.pinPool config.includeDrafts
  refine ⟨fresh, kept, headed, ?_⟩
  cases allowed : repoAllowed config repository with
  | false =>
    rw [handlePrEvent_of_not_allowed allowed]
    cases allocations (allocationName repository number) <;> rfl
  | true =>
    have reached : (handlePrEvent config server event.evt now allocations).2 =
        match createAllocation server allocations fresh with
        | .ok grown => grown
        | .error _ => allocations := by
      unfold handlePrEvent
      rw [event.ofRepository, allowed, built]
      cases action : event.evt.action <;> rw [action] at opens
      case closed => exact opens.elim
      case other => exact opens.elim
      all_goals
        simp only [Bool.not_true, Bool.false_eq_true, if_false]
        cases createAllocation server allocations fresh with
        | ok grown => rfl
        | error code =>
          -- Whatever the code is, the answer alone differs.
          dsimp only
          split <;> rfl
    rw [reached]
    unfold createAllocation
    rw [named]
    cases accepts : server.acceptsName (allocationName repository number) with
    | false => cases stored : allocations (allocationName repository number) <;> simp [stored]
    | true => cases stored : allocations (allocationName repository number) <;> simp [stored]

/-- What is under the name after an event that closes the request. -/
theorem isBeingDeleted_of_closed (closed : ¬ event.evt.action.Opens)
    (allowed : repoAllowed config repository = true) {allocations : Allocations}
    {alloc : EphemeralAllocation}
    (stored : (handlePrEvent config server event.evt now allocations).2
      (allocationName repository number) = some alloc) : alloc.isBeingDeleted = true := by
  -- The event deletes whatever is under the name, or finds nothing there.
  unfold handlePrEvent at stored
  rw [event.ofRepository, event.ofNumber, allowed, not_opens_iff.mp closed] at stored
  simp only [Bool.not_true, Bool.false_eq_true, if_false] at stored
  cases answer : deleteAllocation allocations (allocationName repository number) now with
  | ok rest =>
    rw [answer] at stored
    exact deleteAllocation_ok answer stored
  | error code =>
    obtain ⟨rfl, free⟩ := deleteAllocation_error answer
    rw [answer] at stored
    cases free.symm.trans stored

end Webhook

/-- No allocation is stored for a repository that is not allowed. -/
theorem unasked_happen (denied : repoAllowed config repository = false) (free : s.stored? = none)
    (what : Happening repository number) : (happen config server s what).stored? = none := by
  -- No step but an event creates an object, and the events are ignored.
  unfold Watched.stored? at free ⊢
  cases what with
  | webhook event now => exact (congrFun (handlePrEvent_of_not_allowed denied _) _).trans free
  | finalizer key => simp [happen, addFinalizer, free]
  | deletionCompletes => simp [happen, completeDeletion, free]

/-- The newest event wins in the state after a step exactly if the step is timely. -/
theorem newest_happen_iff (unasked : repoAllowed config repository = false → s.stored? = none)
    (newest : s.Newest) (what : Happening repository number) :
    (happen config server s what).Newest ↔ Timely config server s what := by
  cases what with
  | webhook event now =>
    have latest : (happen config server s (.webhook event now)).newest = some event := rfl
    by_cases opens : event.evt.action.Opens
    · -- The object that is there after it has to outlive the deletions and be for this head.
      obtain ⟨fresh, kept, headed, after⟩ :=
        @stored?_handlePrEvent_of_opens _ _ config server _ now opens s.allocations
      unfold Watched.Newest Timely Watched.stored?
      simp only [Option.some.injEq, forall_eq', opens, if_true, forall_const,
        completeDeletion_eq_some_iff, happen, after]
      cases s.allocations (allocationName repository number) with
      | some alloc => simp
      | none =>
        rw [← Bool.and_eq_true]
        cases repoAllowed config repository && server.acceptsName _ with
        | false => simp
        | true => simpa using ⟨kept, headed⟩
    · refine iff_of_true ?_ fun h => absurd h opens
      intro event' isLatest
      cases latest.symm.trans isLatest
      rw [if_neg opens]
      intro alloc stored
      cases allowed : repoAllowed config repository with
      | true => exact isBeingDeleted_of_closed opens allowed stored
      | false => cases (unasked_happen allowed (unasked allowed) _).symm.trans stored
  | finalizer key =>
    refine iff_of_true ?_ trivial
    intro event isLatest
    have before := newest event isLatest
    by_cases opens : event.evt.action.Opens
    · rw [if_pos opens] at before ⊢
      obtain ⟨alloc, stays, headed⟩ := before
      obtain ⟨stored, kept⟩ := completeDeletion_eq_some_iff.mp stays
      obtain ⟨marked, stored', sameSpec, sameMark⟩ := exists_addFinalizer key stored
      refine ⟨marked, completeDeletion_eq_some_iff.mpr ⟨stored', sameMark.trans kept⟩, ?_⟩
      rw [sameSpec]
      exact headed
    · rw [if_neg opens] at before ⊢
      intro alloc stored
      obtain ⟨original, stored', -, sameMark⟩ := addFinalizer_eq_some stored
      rw [← sameMark]
      exact before original stored'
  | deletionCompletes =>
    refine iff_of_true ?_ trivial
    intro event isLatest
    have before := newest event isLatest
    by_cases opens : event.evt.action.Opens
    · rw [if_pos opens] at before ⊢
      obtain ⟨alloc, stays, headed⟩ := before
      obtain ⟨-, kept⟩ := completeDeletion_eq_some_iff.mp stays
      exact ⟨alloc, completeDeletion_eq_some_iff.mpr ⟨stays, kept⟩, headed⟩
    · rw [if_neg opens] at before ⊢
      intro alloc stored
      -- What outlives a deletion was stored and not being deleted.
      obtain ⟨stored', kept⟩ := completeDeletion_eq_some_iff.mp stored
      exact before alloc stored'

variable (config server) in
/-- The newest event has won after every step of a run exactly if every step of it is timely. -/
theorem newest_iff_timely {allocations : Allocations}
    (free : allocations (allocationName repository number) = none)
    (run : List (Happening repository number)) :
    EachStep (happen config server) (fun s what => (happen config server s what).Newest)
        ⟨allocations, none⟩ run ↔
      EachStep (happen config server) (Timely config server) ⟨allocations, none⟩ run := by
  -- Besides the newest event winning, a repository that is not allowed has no object.
  refine eachStep_congr
    (fun s => (repoAllowed config repository = false → s.stored? = none) ∧ s.Newest) ?_ ?_ ?_
  · exact ⟨fun _ => free, nofun⟩
  · rintro s what ⟨unasked, -⟩ wins
    exact ⟨fun denied => unasked_happen denied (unasked denied) what, wins⟩
  · rintro s what ⟨unasked, newest⟩
    exact newest_happen_iff unasked newest what

/-- A watcher of every repository. -/
def watchesAll : WatcherConfig :=
  { namespace_ := "ephemeral-pools", pinPool := none, includeDrafts := false, allowRepos := [] }

/-- A server that takes every name. -/
def plainServer : Server :=
  { acceptsName := fun _ => true, renderError := fun _ => "" }

/-- An event of the pull request, with the head that it has then. -/
def demoEvent (action : PrAction) (known : action ≠ .other) (sha : String) :
    RequestEvent "pleme-io/demo-app" 42 where
  evt :=
    { action
      number := 42
      repository := "pleme-io/demo-app"
      pullRequest :=
        { head := ⟨"fix-something", sha⟩, draft := some false, labels := [], user := "dev" } }
  ofRepository := rfl
  ofNumber := rfl
  notDraft := rfl
  known := known

/-- The request is opened, and its deletion is asked for when it is closed. -/
theorem newest_opened_closed :
    EachStep (happen watchesAll plainServer)
      (fun s what => (happen watchesAll plainServer s what).Newest) ⟨fun _ => none, none⟩
      [.webhook (demoEvent .opened (by decide) "abc123") ⟨0⟩,
        .webhook (demoEvent .closed (by decide) "abc123") ⟨5⟩] := by
  -- The opening finds nothing stored, and the closing opens nothing.
  refine (newest_iff_timely watchesAll plainServer rfl _).mpr ?_
  rw [eachStep_cons_iff, eachStep_cons_iff]
  exact ⟨fun _ => ⟨rfl, rfl⟩, False.elim, eachStep_nil⟩

/-- After a push the allocation is still for the head that the request was opened with. -/
theorem pushed_head_not_asked :
    ¬ EachStep (happen watchesAll plainServer)
      (fun s what => (happen watchesAll plainServer s what).Newest) ⟨fun _ => none, none⟩
      [.webhook (demoEvent .opened (by decide) "abc123") ⟨0⟩,
        .webhook (demoEvent .synchronize (by decide) "def456") ⟨60⟩] := by
  rw [eachStep_cons_iff, eachStep_cons_iff]
  rintro ⟨opened, pushed, -⟩
  -- A step that the newest event survives is timely, and this one is not.
  have timely := (newest_happen_iff (fun denied => by cases denied) opened _).mp pushed trivial
  obtain ⟨fresh, -, headed, after⟩ := @stored?_handlePrEvent_of_opens _ _ watchesAll plainServer
    (demoEvent .opened (by decide) "abc123") ⟨0⟩ trivial fun _ => none
  have stored : (happen watchesAll plainServer ⟨fun _ => none, none⟩
      (.webhook (demoEvent .opened (by decide) "abc123") ⟨0⟩)).stored? = some fresh := after
  rw [stored] at timely
  exact absurd (headed.symm.trans timely.2) (by decide)

end Tatara.Watcher
