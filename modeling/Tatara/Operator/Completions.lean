import Tatara.Lib.Machine
import Tatara.Operator.NixBuild

/-! The completion subscriber over a stream that delivers what has not been acknowledged, and in
which runs no completion is lost. -/

namespace Tatara.Operator

open Tatara.Rust Tatara.Steps

/-- The build objects, the stream of completion messages, as far as each can be read, with the
places of those that have been acknowledged, and whether the subscriber is running. It is kept from
which messages the status of which objects has been set. -/
structure Subscription where
  objects : NixBuilds
  uids : Nat
  messages : List (Option Completion)
  acked : List Nat
  settled : List (Nat × Nat)
  running : Bool

/-- A server without objects, and a stream without messages. -/
def Subscription.empty : Subscription := ⟨fun _ => none, 0, [], [], [], false⟩

/-- What happens: an object is created or deleted, a reconcile patches a status, a message arrives
or is delivered, with what becomes of the patch and of the acknowledgement, and the subscriber ends
with the stream's first error or is started again. -/
inductive SubscriptionEvent where
  | create (ref : ObjectRef) (spec : NixBuildSpec)
  | delete (ref : ObjectRef)
  | queue (ref : ObjectRef) (buildId : String) (fault : Option PatchFault)
  | arrive (message : Option Completion)
  | deliver (place : Nat) (now : DateTime) (fault : Option PatchFault) (acknowledged : Bool)
  | streamError
  | restart

namespace Subscription

/-- One round of the loop of the subscriber: the message is read, the status is patched, and the
message is acknowledged in any case. -/
def handle (s : Subscription) (place : Nat) (message : Option Completion) (now : DateTime)
    (fault : Option PatchFault) (acknowledged : Bool) : Subscription :=
  let acked := if acknowledged then place :: s.acked else s.acked
  match message with
  | some completion =>
    let objects := patchStatus fault s.objects completion.ref (completion.status now)
    match s.objects completion.ref with
    | some build =>
      { s with objects, acked, settled :=
          if Lands fault then (place, build.uid) :: s.settled else s.settled }
    | none => { s with objects, acked }
  | none => { s with acked }

/-- The stream delivers a message that has not been acknowledged to a subscriber that is running. -/
def deliver (s : Subscription) (place : Nat) (now : DateTime) (fault : Option PatchFault)
    (acknowledged : Bool) : Subscription :=
  match s.messages[place]? with
  | some message =>
    if s.running ∧ place ∉ s.acked then s.handle place message now fault acknowledged else s
  | none => s

/-- One event. -/
def serve (s : Subscription) : SubscriptionEvent → Subscription
  | .create ref spec =>
    { s with objects := createBuild s.objects s.uids ref spec, uids := s.uids + 1 }
  | .delete ref => { s with objects := deleteBuild s.objects ref }
  | .queue ref buildId fault =>
    { s with objects := patchStatus fault s.objects ref (queuedStatus buildId) }
  | .arrive message => { s with messages := s.messages ++ [message] }
  | .deliver place now fault acknowledged => s.deliver place now fault acknowledged
  | .streamError => { s with running := false }
  | .restart => { s with running := true }

/-- The build that an object is in the queue for has been answered. -/
def IsAnswered (s : Subscription) (ref : ObjectRef) (build : NixBuild) : Prop :=
  ∃ completion, some completion ∈ s.messages ∧ completion.ref = ref ∧
    ∃ status, build.status = some status ∧ status.buildId = some (completion.buildId.getD "")

/-- An event that the stream and the subscriber are enough for. -/
def Handles : SubscriptionEvent → Prop
  | .deliver .. | .restart => True
  | .create .. | .delete .. | .queue .. | .arrive .. | .streamError => False

/-- Deliveries can still bring the object out of the queue. -/
def CanLeaveQueue (s : Subscription) (ref : ObjectRef) : Prop :=
  ∃ events : List SubscriptionEvent, (∀ event ∈ events, Handles event) ∧
    ∀ build, (events.foldl serve s).objects ref = some build → build.phase ≠ .queued

/-- In the event no message of an existing object is acknowledged before the status of the object
has been set from it, and after it no object is left in the queue whose build was answered. -/
structure NotLost (s : Subscription) (event : SubscriptionEvent) : Prop where
  acknowledged : ∀ place completion build, place ∉ s.acked → place ∈ (s.serve event).acked →
    s.messages[place]? = some (some completion) → s.objects completion.ref = some build →
      (place, build.uid) ∈ (s.serve event).settled
  leaves : ∀ ref build, (s.serve event).objects ref = some build → build.phase = .queued →
    (s.serve event).IsAnswered ref build → (s.serve event).CanLeaveQueue ref

/-- A message of the object, other than this one, is still to be acknowledged. -/
def AwaitsBut (s : Subscription) (ref : ObjectRef) (but : Option Nat) : Prop :=
  ∃ place completion, some place ≠ but ∧ s.messages[place]? = some (some completion) ∧
    completion.ref = ref ∧ place ∉ s.acked

/-- A message of an existing object is acknowledged only if the patch lands, or has done so before
and no answer is left out by that, and no reconcile takes an object back to the queue once its
answers have been acknowledged. -/
def Handled (s : Subscription) : SubscriptionEvent → Prop
  | .deliver place _ fault acknowledged =>
    ∀ completion build, s.running → place ∉ s.acked → acknowledged →
      s.messages[place]? = some (some completion) → s.objects completion.ref = some build →
        Lands fault ∨ (place, build.uid) ∈ s.settled ∧
          (build.phase = .queued → s.IsAnswered completion.ref build →
            s.AwaitsBut completion.ref (some place))
  | .queue ref buildId fault =>
    ∀ build, Lands fault → s.objects ref = some build →
      s.IsAnswered ref { build with status := some (queuedStatus buildId) } → s.AwaitsBut ref none
  | .create .. | .delete .. | .arrive .. | .streamError | .restart => True

variable {s : Subscription} {place : Nat} {message : Option Completion} {now : DateTime}
  {fault : Option PatchFault} {acknowledged : Bool} {ref : ObjectRef} {build : NixBuild}

/-- To handle a message leaves the messages. -/
@[simp] theorem handle_messages :
    (s.handle place message now fault acknowledged).messages = s.messages := by
  unfold handle
  cases message with
  | none => rfl
  | some completion => cases there : s.objects completion.ref <;> simp [there]

/-- A message is acknowledged where the server has heard of it. -/
@[simp] theorem handle_acked :
    (s.handle place message now fault acknowledged).acked =
      if acknowledged then place :: s.acked else s.acked := by
  unfold handle
  cases message with
  | none => rfl
  | some completion => cases there : s.objects completion.ref <;> simp [there]

/-- A message that can be read changes the status of its object, if it is there. -/
theorem handle_objects_some {completion : Completion} :
    (s.handle place (some completion) now fault acknowledged).objects =
      patchStatus fault s.objects completion.ref (completion.status now) := by
  unfold handle
  cases there : s.objects completion.ref <;> simp [there]

/-- A message is settled where its patch lands. -/
theorem handle_settled {completion : Completion} (there : s.objects completion.ref = some build) :
    (s.handle place (some completion) now fault acknowledged).settled =
      if Lands fault then (place, build.uid) :: s.settled else s.settled := by
  unfold handle
  simp [there]

/-- Either nothing is delivered, or a message that has not been acknowledged is. -/
theorem deliver_cases :
    s.deliver place now fault acknowledged = s ∧
        (s.running → place ∉ s.acked → s.messages[place]? = none) ∨
      ∃ message, s.messages[place]? = some message ∧ s.running ∧ place ∉ s.acked ∧
        s.deliver place now fault acknowledged = s.handle place message now fault acknowledged := by
  -- A delivery needs a message that is there and not acknowledged, and a process that runs.
  unfold deliver
  cases there : s.messages[place]? with
  | none => exact .inl ⟨rfl, fun _ _ => rfl⟩
  | some message =>
    dsimp only
    by_cases delivered : s.running ∧ place ∉ s.acked
    · rw [if_pos delivered]
      exact .inr ⟨message, rfl, delivered.1, delivered.2, rfl⟩
    · rw [if_neg delivered]
      exact .inl ⟨rfl, fun running unacked => absurd ⟨running, unacked⟩ delivered⟩

/-- Where a message is about another object, or does not come to it, an object is left. -/
theorem handle_objects_of_ne
    (other : ∀ completion, message = some completion → completion.ref ≠ ref) :
    (s.handle place message now fault acknowledged).objects ref = s.objects ref := by
  -- The patch is for the object that the message names.
  cases message with
  | none => rfl
  | some completion =>
    rw [handle_objects_some]
    rcases @patchStatus_cases fault s.objects completion.ref (completion.status now) with
      same | ⟨-, _, -, same⟩
    · rw [same]
    · rw [same, Function.update_of_ne (Ne.symm (other completion rfl))]

/-- The messages that are awaited stay so until they are acknowledged. -/
theorem AwaitsBut.of_handle {but : Option Nat}
    (awaits : (s.handle place message now fault acknowledged).AwaitsBut ref but) :
    s.AwaitsBut ref but := by
  -- What is acknowledged after a message has been, or is that message.
  obtain ⟨place', completion, differs, found, same, unacked⟩ := awaits
  rw [handle_messages] at found
  rw [handle_acked] at unacked
  refine ⟨place', completion, differs, found, same, fun already => unacked ?_⟩
  split
  · exact List.mem_cons_of_mem _ already
  · exact already

/-- An object whose messages have all been acknowledged stays as it is in all deliveries. -/
theorem objects_of_not_awaits (none : ¬ s.AwaitsBut ref none) {events : List SubscriptionEvent}
    (handles : ∀ event ∈ events, Handles event) :
    (events.foldl serve s).objects ref = s.objects ref := by
  -- The induction takes the events from the front; the messages stay acknowledged.
  induction events generalizing s with
  | nil => rfl
  | cons event events ih =>
    obtain ⟨first, others⟩ := List.forall_mem_cons.mp handles
    rw [List.foldl_cons]
    cases event with
    | restart =>
      exact ih (s := { s with running := true }) none others
    | deliver place now fault acknowledged =>
      rcases @deliver_cases s place now fault acknowledged with
        ⟨same, -⟩ | ⟨message, found, -, unacked, same⟩
      · rw [serve, same]
        exact ih none others
      · rw [serve, same, ih (fun awaits => none awaits.of_handle) others]
        refine handle_objects_of_ne fun completion same' own => none ?_
        exact ⟨place, completion, nofun, same' ▸ found, own, unacked⟩
    | create | delete | queue | arrive | streamError => exact first.elim

/-- A queued object can leave the queue exactly when a message of its is still to be
acknowledged. -/
theorem canLeaveQueue_iff (there : s.objects ref = some build) (queued : build.phase = .queued) :
    s.CanLeaveQueue ref ↔ s.AwaitsBut ref none := by
  -- A message that is left is delivered after a restart, with a patch that lands.
  constructor
  · rintro ⟨events, handles, left⟩
    by_contra none
    refine left build ?_ queued
    rw [objects_of_not_awaits none handles, there]
  · rintro ⟨place, completion, -, found, rfl, unacked⟩
    refine ⟨[.restart, .deliver place ⟨0⟩ none true], by simp [Handles],
      fun build' there' ended => ?_⟩
    have delivered : deliver { s with running := true } place ⟨0⟩ none true =
        handle { s with running := true } place (some completion) ⟨0⟩ none true := by
      unfold deliver
      rw [found]
      exact if_pos ⟨rfl, unacked⟩
    rw [List.foldl_cons, List.foldl_cons, List.foldl_nil, serve, serve, delivered,
      handle_objects_some, patchStatus_of_lands lands_none there, Function.update_self] at there'
    cases there'
    have over_ := completion.over_status ⟨0⟩
    rw [show (completion.status ⟨0⟩).phase = .queued from ended] at over_
    exact over_

/-- Only messages that have arrived have been acknowledged. -/
def InRange (s : Subscription) : Prop := ∀ place ∈ s.acked, place < s.messages.length

/-- Every object in the queue whose build was answered has a message still to be acknowledged. -/
def Waiting (s : Subscription) : Prop :=
  ∀ ref build, s.objects ref = some build → build.phase = .queued → s.IsAnswered ref build →
    s.AwaitsBut ref none

/-- Only messages that have arrived are acknowledged. -/
theorem inRange_serve (range : s.InRange) (event : SubscriptionEvent) :
    (s.serve event).InRange := by
  -- Only a delivery acknowledges, and then a message that is there.
  unfold serve
  cases event with
  | create | delete | queue | streamError | restart => exact range
  | arrive message =>
    intro place acked
    have before := range place acked
    simp only [List.length_append, List.length_singleton]
    omega
  | deliver place now fault acknowledged =>
    rcases @deliver_cases s place now fault acknowledged with ⟨same, -⟩ | ⟨_, found, -, -, same⟩
    · dsimp only
      rw [same]
      exact range
    · intro place' acked
      dsimp only at acked ⊢
      rw [same, handle_acked] at acked
      rw [same, handle_messages]
      split at acked
      · rcases List.mem_cons.mp acked with rfl | old
        · exact (List.getElem?_eq_some_iff.mp found).1
        · exact range place' old
      · exact range place' acked

/-- Where nothing is acknowledged, nothing is lost exactly if every queued build still waits. -/
theorem notLost_iff_waiting {event : SubscriptionEvent} (kept : (s.serve event).acked = s.acked) :
    s.NotLost event ↔ (s.serve event).Waiting := by
  -- Without an acknowledgement nothing can be lost by one.
  constructor
  · intro notLost ref build there queued answered
    exact (canLeaveQueue_iff there queued).mp (notLost.leaves ref build there queued answered)
  · intro waiting
    refine ⟨fun place completion build unacked acked => ?_,
      fun ref build there queued answered => ?_⟩
    · rw [kept] at acked
      exact absurd acked unacked
    · exact (canLeaveQueue_iff there queued).mpr (waiting ref build there queued answered)

/-- Objects that are new, or not in the queue, have nothing to wait for. -/
theorem Waiting.of_objects {t : Subscription} (waiting : s.Waiting)
    (messages : t.messages = s.messages) (acked : t.acked = s.acked)
    (objects : ∀ ref build, t.objects ref = some build → build.phase = .queued →
      s.objects ref = some build) : t.Waiting := by
  -- The messages to wait for are the same ones.
  intro ref build there queued answered
  have before := waiting ref build (objects ref build there queued) queued
  unfold IsAnswered AwaitsBut at *
  rw [messages] at answered ⊢
  rw [acked]
  exact before answered

/-- A new object does not wait. -/
theorem waiting_create (waiting : s.Waiting) (ref : ObjectRef) (spec : NixBuildSpec) :
    (s.serve (.create ref spec)).Waiting := by
  -- A new object is not queued.
  refine waiting.of_objects rfl rfl fun ref' build there queued => ?_
  rcases createBuild_eq_some there with old | ⟨-, rfl⟩
  · exact old
  · cases queued

/-- A deleted object does not wait. -/
theorem waiting_delete (waiting : s.Waiting) (ref : ObjectRef) :
    (s.serve (.delete ref)).Waiting :=
  waiting.of_objects rfl rfl fun _ _ there _ => deleteBuild_eq_some there

/-- A message that arrives is awaited by whatever it answers. -/
theorem waiting_arrive (range : s.InRange) (waiting : s.Waiting) (message : Option Completion) :
    (s.serve (.arrive message)).Waiting := by
  -- What has just arrived is not acknowledged.
  rintro ref build there queued ⟨completion, among, own, buildId⟩
  rcases List.mem_append.mp among with old | new
  · obtain ⟨place, other, -, found, same, unacked⟩ :=
      waiting ref build there queued ⟨completion, old, own, buildId⟩
    refine ⟨place, other, nofun, ?_, same, unacked⟩
    exact (List.getElem?_append_left (List.getElem?_eq_some_iff.mp found).1).trans found
  · refine ⟨s.messages.length, completion, nofun, ?_, own, fun acked => ?_⟩
    · rw [List.mem_singleton.mp new]
      exact List.getElem?_concat_length ..
    · exact absurd (range _ acked) (Nat.lt_irrefl _)

/-- A reconcile may take an object to the queue unless all answers for it have been acknowledged. -/
theorem waiting_queue_iff (waiting : s.Waiting) (ref : ObjectRef) (buildId : String)
    (fault : Option PatchFault) :
    (s.serve (.queue ref buildId fault)).Waiting ↔ s.Handled (.queue ref buildId fault) := by
  -- Only the object that is queued now may have to wait for a message.
  unfold serve
  constructor
  · intro after build lands there answered
    refine after ref { build with status := some (queuedStatus buildId) } ?_ rfl answered
    dsimp only
    rw [patchStatus_of_lands lands there, Function.update_self]
  · intro handled ref' build there queued answered
    dsimp only at there
    rcases @patchStatus_cases fault s.objects ref (queuedStatus buildId) with
      same | ⟨lands, old, before, same⟩
    · exact waiting ref' build (same ▸ there) queued answered
    · rw [same] at there
      by_cases own : ref' = ref
      · rw [own, Function.update_self] at there
        cases there
        rw [own] at answered ⊢
        exact handled old lands before answered
      · rw [Function.update_of_ne own] at there
        exact waiting ref' build there queued answered

/-- What is awaited once one more message has been acknowledged. -/
theorem awaitsBut_handle_iff :
    (s.handle place message now fault true).AwaitsBut ref none ↔ s.AwaitsBut ref (some place) := by
  -- What is acknowledged besides is the message itself.
  unfold AwaitsBut
  rw [handle_messages, handle_acked, if_pos rfl]
  constructor
  · rintro ⟨place', completion, -, found, own, unacked⟩
    rw [List.mem_cons, not_or] at unacked
    exact ⟨place', completion, fun same => unacked.1 (Option.some.inj same), found, own, unacked.2⟩
  · rintro ⟨place', completion, differs, found, own, unacked⟩
    refine ⟨place', completion, nofun, found, own, fun acked => ?_⟩
    rcases List.mem_cons.mp acked with rfl | already
    · exact differs rfl
    · exact unacked already

/-- What a message that comes to its object leaves behind is not in the queue. -/
theorem handle_objects_eq_some {completion : Completion}
    (there : (s.handle place (some completion) now fault acknowledged).objects completion.ref =
      some build) (queued : build.phase = .queued) :
    s.objects completion.ref = some build ∧ ¬ Lands fault := by
  -- A patch that lands takes the object out of the queue.
  rw [handle_objects_some] at there
  cases held : s.objects completion.ref with
  | none =>
    rw [patchStatus_of_missing held, held] at there
    cases there
  | some old =>
    by_cases lands : Lands fault
    · rw [patchStatus_of_lands lands held, Function.update_self] at there
      cases there
      have over_ := completion.over_status now
      rw [show (completion.status now).phase = .queued from queued] at over_
      exact over_.elim
    · rw [patchStatus_of_not_lands lands, held] at there
      exact ⟨there, lands⟩

/-- A message may be acknowledged unless it is the last one that a queued object waits for. -/
theorem waiting_handle_iff (found : s.messages[place]? = some message) (waiting : s.Waiting) :
    (s.handle place message now fault true).Waiting ↔
      ∀ completion build, message = some completion → s.objects completion.ref = some build →
        ¬ Lands fault → build.phase = .queued → s.IsAnswered completion.ref build →
          s.AwaitsBut completion.ref (some place) := by
  have answered_iff (ref : ObjectRef) (build : NixBuild) :
      (s.handle place message now fault true).IsAnswered ref build ↔ s.IsAnswered ref build := by
    unfold IsAnswered
    rw [handle_messages]
  constructor
  · rintro after completion build rfl there lost queued answered
    refine awaitsBut_handle_iff.mp (after completion.ref build ?_ queued ?_)
    · rw [handle_objects_some, patchStatus_of_not_lands lost, there]
    · exact (answered_iff _ _).mpr answered
  · intro last ref build there queued answered
    rw [awaitsBut_handle_iff]
    rw [answered_iff] at answered
    by_cases own : ∃ completion, message = some completion ∧ completion.ref = ref
    · obtain ⟨completion, rfl, rfl⟩ := own
      obtain ⟨before, lost⟩ := handle_objects_eq_some there queued
      exact last completion build rfl before lost queued answered
    · -- The message is about another object, so the one that is waited for is another one.
      have other (completion : Completion) (same : message = some completion) :
          completion.ref ≠ ref := fun own' => own ⟨completion, same, own'⟩
      rw [handle_objects_of_ne other] at there
      obtain ⟨place', completion, -, found', same, unacked⟩ :=
        waiting ref build there queued answered
      refine ⟨place', completion, fun here => ?_, found', same, unacked⟩
      rw [Option.some.inj here, found] at found'
      exact other completion (Option.some.inj found') same

/-- A delivery loses nothing exactly if its message is handled. -/
theorem notLost_deliver_iff (waiting : s.Waiting) :
    s.NotLost (.deliver place now fault acknowledged) ↔
      s.Handled (.deliver place now fault acknowledged) := by
  have served : s.serve (.deliver place now fault acknowledged) =
      s.deliver place now fault acknowledged := rfl
  rcases @deliver_cases s place now fault acknowledged with
    ⟨same, none⟩ | ⟨message, found, running, unacked, same⟩ <;> rw [same] at served
  · rw [notLost_iff_waiting (congrArg acked served), served]
    refine iff_of_true waiting fun completion build running unacked _ found => ?_
    rw [none running unacked] at found
    cases found
  · cases acknowledged with
    | false =>
      -- Nothing is acknowledged, and the object of the message can only have left the queue.
      have kept : (s.serve (.deliver place now fault false)).acked = s.acked := by
        rw [served, handle_acked, if_neg Bool.false_ne_true]
      rw [notLost_iff_waiting kept, served]
      refine iff_of_true ?_ fun _ _ _ _ impossible => absurd impossible Bool.false_ne_true
      refine waiting.of_objects handle_messages handle_acked fun ref build there queued => ?_
      by_cases own : ∃ completion, message = some completion ∧ completion.ref = ref
      · obtain ⟨completion, rfl, rfl⟩ := own
        exact (handle_objects_eq_some there queued).1
      · rwa [handle_objects_of_ne fun completion same own' => own ⟨completion, same, own'⟩] at there
    | true =>
      have after : (s.handle place message now fault true).Waiting ↔ _ :=
        waiting_handle_iff found waiting
      constructor
      · intro notLost completion build _ _ _ found' there
        cases found.symm.trans found'
        have settled := notLost.acknowledged place completion build unacked
          (by rw [served, handle_acked]; exact List.mem_cons_self) found there
        rw [served, handle_settled there] at settled
        by_cases lands : Lands fault
        · exact .inl lands
        · rw [if_neg lands] at settled
          refine .inr ⟨settled, after.mp ?_ completion build rfl there lands⟩
          intro ref build' there' queued answered
          rw [← served] at there' answered ⊢
          have leaves := notLost.leaves ref build' there' queued answered
          exact (canLeaveQueue_iff there' queued).mp leaves
      · intro handled
        refine ⟨fun place' completion build unacked' acked' found' there => ?_,
          fun ref build there queued answered => ?_⟩
        · rw [served, handle_acked, if_pos rfl] at acked'
          obtain rfl := (List.mem_cons.mp acked').resolve_right unacked'
          cases found.symm.trans found'
          rw [served, handle_settled there]
          by_cases lands : Lands fault
          · rw [if_pos lands]
            exact List.mem_cons_self
          · rw [if_neg lands]
            exact ((handled completion build running unacked rfl found there).resolve_left lands).1
        · refine (canLeaveQueue_iff there queued).mpr ?_
          rw [served] at there answered ⊢
          refine after.mpr ?_ ref build there queued answered
          rintro completion build' rfl there' lost
          exact ((handled completion build' running unacked rfl found there').resolve_left lost).2

/-- An event loses no completion exactly when it is handled. -/
theorem notLost_iff_handled (range : s.InRange) (waiting : s.Waiting) (event : SubscriptionEvent) :
    s.NotLost event ↔ s.Handled event := by
  -- Only a queueing and a delivery can lose anything.
  cases event with
  | create ref spec =>
    rw [notLost_iff_waiting rfl]
    exact iff_of_true (waiting_create waiting ref spec) trivial
  | delete ref =>
    rw [notLost_iff_waiting rfl]
    exact iff_of_true (waiting_delete waiting ref) trivial
  | queue ref buildId fault =>
    rw [notLost_iff_waiting rfl]
    exact waiting_queue_iff waiting ref buildId fault
  | arrive message =>
    rw [notLost_iff_waiting rfl]
    exact iff_of_true (waiting_arrive range waiting message) trivial
  | deliver place now fault acknowledged => exact notLost_deliver_iff waiting
  | streamError | restart =>
    rw [notLost_iff_waiting rfl]
    exact iff_of_true waiting trivial

/-- What is not lost waits. -/
theorem waiting_serve {event : SubscriptionEvent} (notLost : s.NotLost event) :
    (s.serve event).Waiting := by
  intro ref build there queued answered
  exact (canLeaveQueue_iff there queued).mp (notLost.leaves ref build there queued answered)

/-- No completion is lost in the runs in which all messages are handled. -/
theorem completions_notLost_iff_handled (events : List SubscriptionEvent) :
    EachStep serve NotLost .empty events ↔ EachStep serve Handled .empty events := by
  -- Before every event the messages are in range and the builds that wait have a message.
  refine eachStep_congr (fun s => s.InRange ∧ s.Waiting) ⟨nofun, ?_⟩ ?_ ?_
  · intro ref build there
    cases there
  · rintro s event ⟨range, -⟩ notLost
    exact ⟨inRange_serve range event, waiting_serve notLost⟩
  · rintro s event ⟨range, waiting⟩
    exact notLost_iff_handled range waiting event

/-- The object of a build. -/
def apiRef : ObjectRef := ⟨"builds", "api"⟩

/-- What is to be built. -/
def apiSpec : NixBuildSpec :=
  { flakeRef := "github:acme/api#api", system := "x86_64-linux", atticCache := none, extraArgs := []
    priority := 0 }

/-- The message that the build is complete. -/
def apiBuilt : Completion :=
  { buildId := some "b1", name := some "api", namespace_ := some "builds"
    storePath := some "/nix/store/api", error := none }

/-- The status patch of the only message fails, which is acknowledged all the same. -/
theorem completion_lost :
    ¬ EachStep serve NotLost .empty
      [.create apiRef apiSpec, .queue apiRef "b1" none, .arrive (some apiBuilt), .restart,
        .deliver 0 ⟨0⟩ (some .unsent) true] := by
  -- The message is acknowledged although the patch of its delivery is not sent.
  intro each
  have last := each [.create apiRef apiSpec, .queue apiRef "b1" none, .arrive (some apiBuilt),
    .restart] (.deliver 0 ⟨0⟩ (some .unsent) true) (List.prefix_refl _)
  have settled := last.acknowledged 0 apiBuilt ⟨0, apiSpec, some (queuedStatus "b1")⟩ nofun
    List.mem_cons_self rfl rfl
  cases settled

end Subscription

end Tatara.Operator
