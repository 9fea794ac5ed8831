import Tatara.Init.Supervisor
import Tatara.Lib.Machine

/-! Supervision, as it should be, and which passes of the main loop keep to it. -/

namespace Tatara.Init

open Tatara.Steps

variable {kernel : Kernel} {cfg : InitConfig} {w : World} {tracking : Tracking}

variable (kernel) in
/-- A service can be spawned: it has a command line, and the kernel forks. -/
def Spawns (w : World) (svc : Service) : Prop :=
  splitExec svc.resolvedExec ≠ [] ∧
    (kernel.fork w.forks (w.children.map (·.pid))).isSome = true

variable (kernel) in
/-- The world after a spawn, whether or not there is a child. -/
def World.spawned (w : World) (svc : Service) : World := (w.spawn kernel svc).2

/-- What a spawn does. -/
theorem spawn_cases (w : World) (svc : Service) :
    (¬ Spawns kernel w svc ∧ (∃ e, w.spawn kernel svc = (.error e, w.spawned kernel svc)) ∧
        (w.spawned kernel svc).children = w.children ∧
        (w.spawned kernel svc).reaped = w.reaped ∧
        (w.spawned kernel svc).stopped = w.stopped) ∨
      (Spawns kernel w svc ∧ ∃ pid,
        w.spawn kernel svc = (.ok pid, w.spawned kernel svc) ∧ pid ∉ w.children.map (·.pid) ∧
        (w.spawned kernel svc).children = ⟨pid, some svc⟩ :: w.children ∧
        (w.spawned kernel svc).reaped = w.reaped ∧
        (w.spawned kernel svc).stopped = Function.update w.stopped svc none) := by
  -- Without a command line, or a fork, there is no child; else it has a process id of its own.
  unfold World.spawned World.spawn Spawns
  cases splitExec svc.resolvedExec with
  | nil => exact .inl ⟨fun able => able.1 rfl, ⟨_, rfl⟩, rfl, rfl, rfl⟩
  | cons command arguments =>
    cases forked : kernel.fork w.forks (w.children.map (·.pid)) with
    | none => exact .inl ⟨fun able => (by cases able.2), ⟨_, rfl⟩, rfl, rfl, rfl⟩
    | some pid =>
      refine .inr ⟨⟨by simp, rfl⟩, pid, rfl, kernel.fresh forked, rfl, rfl, rfl⟩

/-- The services of live children after one more child. -/
theorem serviceAt?_cons {children : List Child} {pid : Pid} {service : Option Service}
    (isChildren : w.children = ⟨pid, service⟩ :: children) {before : World}
    (wasChildren : before.children = children) :
    w.serviceAt? = Function.update before.serviceAt? pid service := by
  -- The new child comes first.
  funext other
  unfold World.serviceAt?
  rw [isChildren, wasChildren]
  by_cases same : pid = other
  · subst same
    simp
  · rw [Function.update_of_ne (Ne.symm same), List.find?_cons_of_neg (by simpa using same)]

/-- When a child is reaped, no service runs under its process id any more. -/
theorem serviceAt?_reapOne? {w' : World} {exit : Exit} (reaped : w.reapOne? exit = some w') :
    w'.serviceAt? = Function.update w.serviceAt? exit.pid none := by
  -- Under the process id of the exit nothing is left, and other children stay.
  obtain ⟨child, -, rfl⟩ := Option.map_eq_some_iff.mp reaped
  funext other
  unfold World.serviceAt?
  by_cases same : other = exit.pid
  · subst same
    have gone : (w.children.filter (·.pid ≠ exit.pid)).find? (·.pid = exit.pid) = none := by
      rw [List.find?_eq_none]
      intro other member
      simpa using (List.mem_filter.mp member).2
    rw [Function.update_self, gone]
    rfl
  · rw [Function.update_of_ne same, List.find?_filter]
    congr 2
    funext child
    by_cases isOther : child.pid = other
    · simp [isOther, same]
    · simp [isOther]

/-- What a reaped child leaves. -/
theorem reapOne?_eq_some {w' : World} {exit : Exit} (reaped : w.reapOne? exit = some w') :
    w'.reaped = w.reaped ++ [exit] ∧
      w'.stopped =
        match w.serviceAt? exit.pid with
        | some svc => Function.update w.stopped svc (some exit.status)
        | none => w.stopped := by
  -- The service is that of the child that is found.
  obtain ⟨child, found, rfl⟩ := Option.map_eq_some_iff.mp reaped
  refine ⟨rfl, ?_⟩
  unfold World.serviceAt?
  rw [found]
  rfl

/-! ### What is supervised -/

variable (cfg w tracking) in
/-- The table holds exactly the live children of the services, each under its own service, and no
service is left stopped whose policy asks for a restart. -/
structure Agrees : Prop where
  tracked : ∀ pid, tracking pid = (w.serviceAt? pid).map (·.name)
  own : ∀ pid svc, w.serviceAt? pid = some svc → cfg.service? svc.name = some svc
  kept : ∀ svc status, w.stopped svc = some status → svc.restart.shouldRestart status = false

variable (kernel) in
/-- What an exit should be followed by: a child is reaped, and its service spawned if the policy
asks for it. -/
def World.handle (w : World) (exit : Exit) : World :=
  match w.reapOne? exit with
  | none => w
  | some reaped =>
    match w.serviceAt? exit.pid with
    | none => reaped
    | some svc =>
      if svc.restart.shouldRestart exit.status then reaped.spawned kernel svc else reaped

variable (kernel) in
/-- A service whose policy asks for a restart after this exit can be spawned then. -/
def Restartable (w : World) (exit : Exit) : Prop :=
  ∀ reaped, w.reapOne? exit = some reaped →
    ∀ svc, w.serviceAt? exit.pid = some svc →
      svc.restart.shouldRestart exit.status = true → Spawns kernel reaped svc

section Exit

variable {exit : Exit} {reaped : World}

/-- The service of a name in the table is the one that runs as the process. -/
theorem Agrees.serviceOf (agrees : Agrees cfg w tracking) (pid : Pid) :
    (tracking pid).bind cfg.service? = w.serviceAt? pid := by
  -- The name in the table leads back to the service of the child.
  rw [agrees.tracked pid]
  cases found : w.serviceAt? pid with
  | none => rfl
  | some svc => exact agrees.own pid svc found

/-- A table that names the services keeps to them when both are updated. -/
theorem tracked_update {services : Pid → Option Service}
    (tracked : ∀ pid, tracking pid = (services pid).map (·.name)) (pid : Pid)
    (service : Option Service) (other : Pid) :
    Function.update tracking pid (service.map (·.name)) other =
      (Function.update services pid service other).map (·.name) := by
  -- Only the place that is updated is another one.
  by_cases same : other = pid
  · subst same
    simp
  · simpa [same] using tracked other

/-- Services that are set are found by their names. -/
theorem own_update {services : Pid → Option Service}
    (own : ∀ pid svc, services pid = some svc → cfg.service? svc.name = some svc) {pid : Pid}
    {service : Option Service}
    (new : ∀ svc, service = some svc → cfg.service? svc.name = some svc) (other : Pid)
    (svc : Service) (found : Function.update services pid service other = some svc) :
    cfg.service? svc.name = some svc := by
  -- Only the place that is updated is another one.
  by_cases same : other = pid
  · subst same
    rw [Function.update_self] at found
    exact new svc found
  · rw [Function.update_of_ne same] at found
    exact own other svc found

/-- Services that are left are found by their names. -/
theorem own_forget {services : Pid → Option Service}
    (own : ∀ pid svc, services pid = some svc → cfg.service? svc.name = some svc) (pid other : Pid)
    (svc : Service) (found : Function.update services pid none other = some svc) :
    cfg.service? svc.name = some svc :=
  own_update own (fun _ same => by cases same) other svc found

/-- A child that stays away leaves the table. -/
theorem Agrees.reap (agrees : Agrees cfg w tracking) (isReaped : w.reapOne? exit = some reaped)
    (stays : ∀ svc, w.serviceAt? exit.pid = some svc →
      svc.restart.shouldRestart exit.status = false) :
    Agrees cfg reaped (Function.update tracking exit.pid none) := by
  have services := serviceAt?_reapOne? isReaped
  obtain ⟨-, stopped⟩ := reapOne?_eq_some isReaped
  refine ⟨?_, ?_, fun svc status ended => ?_⟩
  · rw [services]
    exact tracked_update agrees.tracked exit.pid none
  · rw [services]
    exact own_forget agrees.own exit.pid
  · -- What has stopped now is the service of the child, which is not to be restarted.
    rw [stopped] at ended
    cases found : w.serviceAt? exit.pid with
    | none =>
      rw [found] at ended
      exact agrees.kept svc status ended
    | some svc' =>
      rw [found] at ended
      dsimp only at ended
      by_cases same : svc = svc'
      · subst same
        rw [Function.update_self] at ended
        cases ended
        exact stays svc found
      · rw [Function.update_of_ne same] at ended
        exact agrees.kept svc status ended

/-- A child whose service is spawned again is replaced in the table. -/
theorem Agrees.respawn (agrees : Agrees cfg w tracking) (isReaped : w.reapOne? exit = some reaped)
    {svc : Service} (found : w.serviceAt? exit.pid = some svc) {pid : Pid} {after : World}
    (children : after.children = ⟨pid, some svc⟩ :: reaped.children)
    (stopped : after.stopped = Function.update reaped.stopped svc none) :
    Agrees cfg after
      (Function.update (Function.update tracking exit.pid none) pid (some svc.name)) := by
  -- The child leaves the table, and the one that replaces it enters it.
  have reapedAt := serviceAt?_reapOne? isReaped
  have services := serviceAt?_cons children rfl
  obtain ⟨-, reapedStopped⟩ := reapOne?_eq_some isReaped
  rw [found] at reapedStopped
  refine ⟨?_, ?_, fun svc' status ended => ?_⟩
  · rw [services, reapedAt]
    exact tracked_update (tracked_update agrees.tracked exit.pid none) pid (some svc)
  · rw [services, reapedAt]
    refine own_update (own_forget agrees.own exit.pid) fun svc' isService => ?_
    cases isService
    exact agrees.own exit.pid svc found
  · -- The service is not stopped any more.
    rw [stopped, reapedStopped, Function.update_idem] at ended
    by_cases same : svc' = svc
    · subst same
      simp at ended
    · rw [Function.update_of_ne same] at ended
      exact agrees.kept svc' status ended

end Exit

variable (cfg w) in
/-- Every exit of a pass has been handled, and there is an event for it. -/
def Passed (events : List ReapedEvent)
    (result : Except SupervisorError (List ReapedEvent) × World × Tracking) : Prop :=
  ∃ more after table, result = (.ok (events ++ more), after, table) ∧ Agrees cfg after table ∧
    after.reaped = w.reaped ++ more.map ReapedEvent.exit

variable (w) in
/-- A pass has failed after a child was reaped. -/
def Lost (result : Except SupervisorError (List ReapedEvent) × World × Tracking) : Prop :=
  ∃ e after table, result = (.error e, after, table) ∧ w.reaped.length < after.reaped.length

section Rest

variable {events : List ReapedEvent} {event : ReapedEvent} {middle : World}
  {result : Except SupervisorError (List ReapedEvent) × World × Tracking}

/-- What passes behind one event passes behind it and those before. -/
theorem Passed.after_event (record : middle.reaped = w.reaped ++ [event.exit])
    (passed : Passed cfg middle (events ++ [event]) result) : Passed cfg w events result := by
  -- The event comes before those of the rest.
  obtain ⟨more, after, table, success, agrees, records⟩ := passed
  refine ⟨event :: more, after, table, ?_, agrees, ?_⟩
  · rw [success, List.append_assoc, List.singleton_append]
  · rw [records, record, List.append_assoc, List.map_cons, List.singleton_append]

/-- What is lost behind one more exit is lost. -/
theorem Lost.after_exit {exit : Exit} (record : middle.reaped = w.reaped ++ [exit])
    (lost : Lost middle result) : Lost w result := by
  -- The exit is one more that has been recorded.
  obtain ⟨e, after, table, failed, longer⟩ := lost
  rw [record, List.length_append] at longer
  exact ⟨e, after, table, failed, Nat.lt_of_le_of_lt (Nat.le_add_right _ _) longer⟩

end Rest

/-- A service that asks for a restart is spawned again, if it can be. -/
theorem handle_asked {svc : Service} (isReaped : w.reapOne? exit = some reaped)
    (found : w.serviceAt? exit.pid = some svc)
    (asks : svc.restart.shouldRestart exit.status = true) :
    w.handle kernel exit = reaped.spawned kernel svc ∧
      (Restartable kernel w exit ↔ Spawns kernel reaped svc) := by
  constructor
  · unfold World.handle
    rw [isReaped, found]
    exact if_pos asks
  · -- The service of the exit and the world behind it are these.
    refine ⟨fun can => can reaped isReaped svc found asks, fun spawns => ?_⟩
    intro reaped' success svc' other _
    cases isReaped.symm.trans success
    cases found.symm.trans other
    exact spawns

/-- Without a service that asks for a restart nothing is spawned. -/
theorem handle_unasked (isReaped : w.reapOne? exit = some reaped)
    (stays : ∀ svc, w.serviceAt? exit.pid = some svc →
      svc.restart.shouldRestart exit.status = false) :
    w.handle kernel exit = reaped ∧
      (if RestartPolicy.shouldRestart
        (((w.serviceAt? exit.pid).map Service.restart).getD .never) exit.status = true
        then w.serviceAt? exit.pid else none) = none := by
  -- There is no service, or its policy is against it.
  unfold World.handle
  rw [isReaped]
  cases found : w.serviceAt? exit.pid with
  | none => exact ⟨rfl, ite_self none⟩
  | some svc => exact ⟨if_neg (by simp [stays svc found]), if_neg (by simp [stays svc found])⟩

/-- A pass of the main loop handles every exit and reports it, unless a service that is to be
restarted cannot be, after which exits are lost. -/
theorem runOnceFrom_spec (exits : List Exit) (agrees : Agrees cfg w tracking)
    (events : List ReapedEvent) :
    (EachStep (World.handle kernel) (Restartable kernel) w exits ∧
        Passed cfg w events (runOnceFrom kernel cfg exits w tracking events)) ∨
      (¬ EachStep (World.handle kernel) (Restartable kernel) w exits ∧
        Lost w (runOnceFrom kernel cfg exits w tracking events)) := by
  -- The induction is on the exits, and the table agrees with the world before each.
  induction exits generalizing w tracking events with
  | nil => exact .inl ⟨eachStep_nil, [], w, tracking, by simp [runOnceFrom], agrees, by simp⟩
  | cons exit exits ih =>
    rw [eachStep_cons_iff]
    unfold runOnceFrom
    cases isReaped : w.reapOne? exit with
    | none =>
      have unseen : Restartable kernel w exit := by
        intro reaped success
        cases isReaped.symm.trans success
      have skipped : w.handle kernel exit = w := by
        unfold World.handle
        rw [isReaped]
      rw [skipped, and_iff_right unseen]
      exact ih agrees events
    | some reaped =>
      obtain ⟨record, -⟩ := reapOne?_eq_some isReaped
      dsimp only
      rw [agrees.serviceOf]
      by_cases asked : ∃ svc, w.serviceAt? exit.pid = some svc ∧
          svc.restart.shouldRestart exit.status = true
      · obtain ⟨svc, found, asks⟩ := asked
        obtain ⟨handled, due⟩ := @handle_asked kernel _ _ _ _ isReaped found asks
        rw [handled, due, found, Option.map_some, Option.getD_some, if_pos asks]
        rcases @spawn_cases kernel reaped svc with
          ⟨unable, ⟨e, failed⟩, -, same, -⟩ | ⟨able, pid, spawned, -, children, same, stopped⟩
        · -- The exit is recorded in the world, and its event is lost.
          refine .inr ⟨fun all => unable all.1, e, reaped.spawned kernel svc,
            Function.update tracking exit.pid none, ?_, ?_⟩
          · dsimp only
            rw [failed]
          · rw [same, record, List.length_append]
            exact Nat.lt_add_of_pos_right (Nat.succ_pos 0)
        · have next := agrees.respawn isReaped found children stopped
          rw [and_iff_right able]
          dsimp only
          rw [spawned]
          have records := same.trans record
          exact (ih next _).imp (.imp_right (Passed.after_event records))
            (.imp_right (Lost.after_exit records))
      · have free : Restartable kernel w exit := fun _ _ svc found asks =>
          absurd ⟨svc, found, asks⟩ asked
        have stays : ∀ svc, w.serviceAt? exit.pid = some svc →
            svc.restart.shouldRestart exit.status = false := fun svc found =>
          Bool.eq_false_iff.mpr fun asks => asked ⟨svc, found, asks⟩
        obtain ⟨handled, none_⟩ := @handle_unasked kernel _ _ _ isReaped stays
        rw [none_, handled, and_iff_right free]
        exact (ih (agrees.reap isReaped stays) _).imp (.imp_right (Passed.after_event record))
          (.imp_right (Lost.after_exit record))

/-! ### Steps of the main loop -/

variable (cfg) in
/-- Supervision is exact: in the main loop the table agrees with the children, a boot that fails
leaves none, no service is dropped, and there is an event for every exit. -/
structure InitProcess.Supervised (s : InitProcess) : Prop where
  exact : s.phase = .looping → Agrees cfg s.world s.tracking
  none_left : ∀ e, s.phase = .bootFailed e → ∀ pid, s.world.serviceAt? pid = none
  kept : ∀ svc status, s.world.stopped svc = some status →
    svc.restart.shouldRestart status = false
  all_reported : s.reported.map ReapedEvent.exit = s.world.reaped

variable (kernel) in
/-- Whenever a service is to be restarted in a pass, it can be spawned. -/
def Unrefused (s : InitProcess) : Happening → Prop
  | .adopted _ => True
  | .pass exits =>
    s.phase = .looping → EachStep (World.handle kernel) (Restartable kernel) s.world exits

/-- Once its loop has ended, nothing happens to the init process. -/
theorem happen_of_not_looping {s : InitProcess} (ended : s.phase ≠ .looping) (what : Happening) :
    happen kernel cfg s what = s := by
  -- Outside of its main loop the init process has ended.
  unfold happen
  cases phase : s.phase with
  | looping => exact absurd phase ended
  | bootFailed e => rfl
  | loopFailed e => rfl

/-- A child that is adopted is no service's. -/
theorem serviceAt?_adopted {pid : Pid} (new : pid ∉ w.children.map (·.pid)) :
    World.serviceAt? { w with children := ⟨pid, none⟩ :: w.children } = w.serviceAt? := by
  -- The process id was no child before, so that nothing is hidden.
  have absent : w.serviceAt? pid = none := by
    unfold World.serviceAt?
    rw [Option.bind_eq_none_iff]
    intro child found
    refine absurd (List.mem_map.mpr ⟨child, List.mem_of_find?_eq_some found, ?_⟩) new
    simpa using List.find?_some found
  rw [@serviceAt?_cons _ w.children pid none rfl w rfl]
  exact Function.update_eq_self_iff.mpr absent.symm

/-- Supervision stays exact in a step exactly if no restart is refused in it. -/
theorem supervised_happen_iff {s : InitProcess} (supervised : s.Supervised cfg)
    (what : Happening) :
    (happen kernel cfg s what).Supervised cfg ↔ Unrefused kernel s what := by
  by_cases looping : s.phase = .looping
  · have agrees := supervised.exact looping
    cases what with
    | adopted pid =>
      refine iff_of_true ?_ trivial
      unfold happen
      simp only [looping]
      split
      · exact supervised
      · next new =>
        have sameServices := serviceAt?_adopted new
        refine ⟨fun _ => ⟨?_, ?_, agrees.kept⟩, nofun, supervised.kept, supervised.all_reported⟩
        · rw [sameServices]
          exact agrees.tracked
        · rw [sameServices]
          exact agrees.own
    | pass exits =>
      have due : Unrefused kernel s (.pass exits) ↔
          EachStep (World.handle kernel) (Restartable kernel) s.world exits :=
        forall_prop_of_true looping
      rw [due]
      unfold happen runOnce
      simp only [looping]
      rcases @runOnceFrom_spec kernel _ _ _ exits agrees [] with ⟨all, passed⟩ | ⟨refused, lost⟩
      · obtain ⟨more, after, table, success, agrees', records⟩ := passed
        rw [success]
        refine iff_of_true ⟨fun _ => agrees', nofun, agrees'.kept, ?_⟩ all
        rw [List.nil_append, List.map_append, supervised.all_reported, records]
      · obtain ⟨e, after, table, failed, longer⟩ := lost
        rw [failed]
        refine iff_of_false (fun exact_ => ?_) refused
        -- There is an exit more than there are events.
        have reported := exact_.all_reported
        dsimp only at reported
        rw [supervised.all_reported] at reported
        exact absurd longer (reported ▸ Nat.lt_irrefl _)
  · rw [happen_of_not_looping looping]
    refine iff_of_true supervised ?_
    cases what with
    | adopted pid => trivial
    | pass exits => exact fun isLooping => absurd isLooping looping

end Tatara.Init
