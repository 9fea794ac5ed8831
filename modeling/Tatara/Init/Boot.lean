import Mathlib.Data.List.Nodup
import Tatara.Init.Supervision

/-! The boot of the init process, and the runs in which supervision is exact. -/

namespace Tatara.Init

open Tatara.Steps

variable {kernel : Kernel} {cfg : InitConfig} {w : World}

variable (cfg) in
/-- The services that a boot spawns. -/
def InitConfig.enabled : List Service := cfg.services.filter (·.enable)

variable (cfg) in
/-- No service, not even a disabled one, comes before an enabled one of its name. -/
def NamesFirst : Prop :=
  cfg.services.Pairwise fun earlier later => later.enable = true → earlier.name ≠ later.name

/-- The names of children, where newer children come first. -/
def namesOf : List Child → ByName
  | [] => []
  | child :: children =>
    match child.service with
    | some svc => (namesOf children).insert svc.name child.pid
    | none => namesOf children

/-- A boot spawns the enabled services in turn, up to the first one that cannot be spawned. -/
theorem bootFrom_spec (services : List Service) (byName : ByName)
    (named : byName = namesOf w.children) :
    (EachStep (World.spawned kernel) (Spawns kernel) w (services.filter (·.enable)) ∧
        ∃ after, after = (services.filter (·.enable)).foldl (World.spawned kernel) w ∧
          bootFrom kernel services w byName = (.ok (namesOf after.children), after)) ∨
      ∃ front svc back e, services.filter (·.enable) = front ++ svc :: back ∧
        EachStep (World.spawned kernel) (Spawns kernel) w front ∧
        ¬ Spawns kernel (front.foldl (World.spawned kernel) w) svc ∧
        bootFrom kernel services w byName =
          (.error e, (front.foldl (World.spawned kernel) w).spawned kernel svc) := by
  -- The induction is on the services; the names are those of the children so far.
  induction services generalizing w byName with
  | nil => exact .inl ⟨eachStep_nil, w, rfl, by rw [named]; rfl⟩
  | cons svc services ih =>
    unfold bootFrom
    cases enabled : svc.enable with
    | false =>
      rw [List.filter_cons_of_neg (by simp [enabled])]
      exact ih byName named
    | true =>
      rw [List.filter_cons_of_pos enabled]
      simp only [Bool.not_true, Bool.false_eq_true, if_false]
      rcases @spawn_cases kernel w svc with
        ⟨unable, ⟨e, failed⟩, -⟩ | ⟨able, pid, spawned, -, children, -⟩
      · refine .inr ⟨[], svc, services.filter (·.enable), e, rfl, eachStep_nil, unable, ?_⟩
        rw [failed]
        rfl
      · rw [spawned]
        have next : byName.insert svc.name pid = namesOf (w.spawned kernel svc).children := by
          rw [children, named]
          rfl
        rcases ih _ next with ⟨each, after, isAfter, success⟩ |
          ⟨front, svc', back, e, split, each, unable, failed⟩
        · exact .inl ⟨eachStep_cons_iff.mpr ⟨able, each⟩, after, isAfter, success⟩
        · refine .inr ⟨svc :: front, svc', back, e, ?_, eachStep_cons_iff.mpr ⟨able, each⟩,
            unable, failed⟩
          rw [split, List.cons_append]

/-- Services that are spawned in turn all have a child of their own. -/
theorem spawnAll_spec (services : List Service)
    (each : EachStep (World.spawned kernel) (Spawns kernel) w services)
    {after : World} (isAfter : after = services.foldl (World.spawned kernel) w) :
    after.children.map (·.service) = (services.map some).reverse ++ w.children.map (·.service) ∧
      ((w.children.map (·.pid)).Nodup → (after.children.map (·.pid)).Nodup) ∧
      after.reaped = w.reaped ∧
      ∀ svc status, after.stopped svc = some status → w.stopped svc = some status := by
  -- Each spawn puts one child in front, under a process id that is not in use.
  subst isAfter
  induction services generalizing w with
  | nil => exact ⟨rfl, id, rfl, fun _ _ => id⟩
  | cons svc services ih =>
    obtain ⟨able, each⟩ := eachStep_cons_iff.mp each
    obtain ⟨isServices, unique, sameReaped, fewer⟩ := ih each
    rcases @spawn_cases kernel w svc with
      ⟨unable, -⟩ | ⟨-, pid, -, new, children, same, stopped⟩
    · exact absurd able unable
    · rw [List.foldl_cons]
      refine ⟨?_, fun nodup => unique ?_, sameReaped.trans same, fun other status ended => ?_⟩
      · rw [isServices, children]
        simp
      · rw [children]
        exact List.nodup_cons.mpr ⟨new, nodup⟩
      · have before := fewer other status ended
        rw [stopped] at before
        by_cases isSpawned : other = svc
        · subst isSpawned
          simp at before
        · rwa [Function.update_of_ne isSpawned] at before

/-- An item is the one that is found by its key where the keys differ. -/
theorem find?_eq_some_of_nodup {α κ : Type*} [DecidableEq κ] {key : α → κ} {items : List α}
    (unique : (items.map key).Nodup) {item : α} (member : item ∈ items) :
    items.find? (key · = key item) = some item := by
  -- No item before this one has its key.
  induction items with
  | nil => cases member
  | cons first items ih =>
    rw [List.map_cons, List.nodup_cons] at unique
    rcases List.mem_cons.mp member with rfl | later
    · exact List.find?_cons_of_pos (by simp)
    · have differs : key first ≠ key item := fun same =>
        unique.1 (same ▸ List.mem_map_of_mem later)
      rw [List.find?_cons_of_neg (by simpa using differs)]
      exact ih unique.2 later

/-- The last child with a name is the one that the name is kept for. -/
theorem mem_namesOf_iff {children : List Child} {name : String} {pid : Pid} :
    (name, pid) ∈ namesOf children ↔
      (children.find? (·.service.map (·.name) = some name)).map (·.pid) = some pid := by
  -- The newest child of a name overwrites the entries of the others.
  induction children with
  | nil => simp [namesOf]
  | cons child children ih =>
    unfold namesOf
    cases isService : child.service with
    | none =>
      rw [List.find?_cons_of_neg (by simp [isService])]
      exact ih
    | some svc =>
      dsimp only
      unfold ByName.insert
      by_cases same : svc.name = name
      · subst same
        rw [List.find?_cons_of_pos (by simp [isService])]
        simp [eq_comm]
      · rw [List.find?_cons_of_neg (by simpa [isService] using same), ← ih]
        simp [Ne.symm same]

/-- The processes that have names are children, in their order. -/
theorem pids_namesOf_sublist (children : List Child) :
    ((namesOf children).map (·.2)).Sublist (children.map (·.pid)) := by
  -- An insertion adds the process id of its child, and takes others away.
  induction children with
  | nil => exact List.Sublist.refl _
  | cons child children ih =>
    unfold namesOf
    cases child.service with
    | none => exact ih.cons _
    | some svc => exact (((List.filter_sublist).map _).trans ih).cons_cons _

/-- A table that is read off entries for different process ids holds exactly these. -/
theorem trackingOf_eq_some_iff {byName : ByName} (unique : (byName.map (·.2)).Nodup)
    {name : String} {pid : Pid} : trackingOf byName pid = some name ↔ (name, pid) ∈ byName := by
  -- From any table that has nothing for these processes, their entries are all that is added.
  have general : ∀ (tracking : Tracking), (∀ entry ∈ byName, tracking entry.2 = none) →
      (byName.foldl (fun (tracking : Tracking) entry =>
          Function.update tracking entry.2 (some entry.1)) tracking pid = some name ↔
        tracking pid = some name ∨ (name, pid) ∈ byName) := by
    induction byName with
    | nil => simp
    | cons entry byName ih =>
      intro tracking free
      rw [List.map_cons, List.nodup_cons] at unique
      rw [List.foldl_cons, ih unique.2]
      · by_cases same : pid = entry.2
        · subst same
          have empty := free entry List.mem_cons_self
          have absent : (name, entry.2) ∉ byName := fun member =>
            unique.1 (List.mem_map.mpr ⟨_, member, rfl⟩)
          simp [empty, absent, Prod.ext_iff, eq_comm]
        · simp [same, Prod.ext_iff]
      · intro other member
        have differs : other.2 ≠ entry.2 := fun same =>
          unique.1 (same ▸ List.mem_map_of_mem member)
        rw [Function.update_of_ne differs]
        exact free other (List.mem_cons_of_mem _ member)
  simpa [trackingOf] using general (fun _ => none) fun _ _ => rfl

/-- No service before an enabled one has its name exactly if the enabled ones have different names
and are each found by theirs. -/
theorem pairwise_iff_lookup (services : List Service) :
    (services.Pairwise fun earlier later => later.enable = true → earlier.name ≠ later.name) ↔
      ((services.filter (·.enable)).map (·.name)).Nodup ∧
        ∀ svc ∈ services.filter (·.enable), services.find? (·.name = svc.name) = some svc := by
  induction services with
  | nil => simp
  | cons first services ih =>
    rw [List.pairwise_cons, ih]
    constructor
    · rintro ⟨differs, unique, found⟩
      have later : ∀ svc ∈ services.filter (·.enable),
          first.name ≠ svc.name ∧ (first :: services).find? (·.name = svc.name) = some svc := by
        intro svc member
        obtain ⟨among, enabled⟩ := List.mem_filter.mp member
        have apart := differs svc among enabled
        rw [List.find?_cons_of_neg (by simpa using apart)]
        exact ⟨apart, found svc member⟩
      cases enabled : first.enable with
      | false =>
        rw [List.filter_cons_of_neg (by simp [enabled])]
        exact ⟨unique, fun svc member => (later svc member).2⟩
      | true =>
        rw [List.filter_cons_of_pos enabled, List.map_cons, List.nodup_cons]
        refine ⟨⟨?_, unique⟩, fun svc member => ?_⟩
        · intro named
          obtain ⟨svc, member, same⟩ := List.mem_map.mp named
          exact (later svc member).1 same.symm
        · rcases List.mem_cons.mp member with rfl | member
          · exact List.find?_cons_of_pos (by simp)
          · exact (later svc member).2
    · rintro ⟨unique, found⟩
      have isLater : ∀ svc ∈ services.filter (·.enable),
          svc ∈ (first :: services).filter (·.enable) := fun svc member =>
        ((List.sublist_cons_self first services).filter _).subset member
      -- An enabled service of the first one's name is found to be the first one, which is twice
      -- among the enabled ones then.
      have apart : ∀ svc ∈ services.filter (·.enable), first.name ≠ svc.name := by
        intro svc member same
        have isFirst := found svc (isLater svc member)
        rw [List.find?_cons_of_pos (by simpa using same)] at isFirst
        cases isFirst
        rw [List.filter_cons_of_pos (List.mem_filter.mp member).2, List.map_cons,
          List.nodup_cons] at unique
        exact unique.1 (List.mem_map_of_mem member)
      refine ⟨fun svc member enabled => apart svc (List.mem_filter.mpr ⟨member, enabled⟩), ?_, ?_⟩
      · exact unique.sublist
          (((List.sublist_cons_self first services).filter _).map _)
      · intro svc member
        have whole := found svc (isLater svc member)
        rwa [List.find?_cons_of_neg (by simpa using apart svc member)] at whole

/-- Children are all the ones kept for their names exactly if their names differ. -/
theorem names_nodup_iff {children : List Child} (unique : (children.map (·.pid)).Nodup) :
    (children.map (·.service.map (·.name))).Nodup ↔
      ∀ child ∈ children,
        (children.find? fun other => other.service.map (·.name) = child.service.map (·.name)).map
          (·.pid) = some child.pid := by
  -- A child that another one of its name comes before is not the one found.
  constructor
  · intro apart child member
    rw [find?_eq_some_of_nodup apart member]
    rfl
  · intro kept
    induction children with
    | nil => exact List.nodup_nil
    | cons first children ih =>
      rw [List.map_cons, List.nodup_cons] at unique ⊢
      have differs : ∀ child ∈ children,
          first.service.map (·.name) ≠ child.service.map (·.name) := by
        intro child member same
        have isFirst := kept child (List.mem_cons_of_mem _ member)
        rw [List.find?_cons_of_pos (by simpa using same)] at isFirst
        exact unique.1 (List.mem_map.mpr ⟨child, member, (Option.some.inj isFirst).symm⟩)
      refine ⟨?_, ih unique.2 fun child member => ?_⟩
      · intro named
        obtain ⟨child, member, same⟩ := List.mem_map.mp named
        exact differs child member same.symm
      · have whole := kept child (List.mem_cons_of_mem _ member)
        rwa [List.find?_cons_of_neg (by simpa using differs child member)] at whole

/-- A service runs as a process where one of the children is that process. -/
theorem serviceAt?_eq_some_iff (unique : (w.children.map (·.pid)).Nodup) {pid : Pid}
    {svc : Service} : w.serviceAt? pid = some svc ↔ ⟨pid, some svc⟩ ∈ w.children := by
  -- Different children have different process ids.
  unfold World.serviceAt?
  rw [Option.bind_eq_some_iff]
  constructor
  · rintro ⟨⟨pid', service⟩, found, rfl⟩
    have same : pid' = pid := by simpa using List.find?_some found
    rw [← same]
    exact List.mem_of_find?_eq_some found
  · intro member
    exact ⟨_, find?_eq_some_of_nodup unique member, rfl⟩

/-- After a boot the table agrees with the children exactly if no service comes before an enabled
one of its name. -/
theorem agrees_booted_iff
    (isServices : w.children.map (·.service) = (cfg.enabled.map some).reverse)
    (unique : (w.children.map (·.pid)).Nodup) (running : ∀ svc, w.stopped svc = none) :
    Agrees cfg w (trackingOf (namesOf w.children)) ↔ NamesFirst cfg := by
  -- The children are those of the enabled services, so that their names differ together.
  have spawnedFor : ∀ child ∈ w.children, ∃ svc ∈ cfg.enabled, child.service = some svc := by
    intro child member
    have listed := List.mem_map_of_mem (f := fun c : Child => c.service) member
    rw [isServices, List.mem_reverse] at listed
    obtain ⟨svc, isEnabled, same⟩ := List.mem_map.mp listed
    exact ⟨svc, isEnabled, same.symm⟩
  have hasChild : ∀ svc ∈ cfg.enabled, ∃ pid, ⟨pid, some svc⟩ ∈ w.children := by
    intro svc isEnabled
    have listed : some svc ∈ w.children.map (·.service) := by
      rw [isServices, List.mem_reverse]
      exact List.mem_map_of_mem isEnabled
    obtain ⟨⟨pid, _⟩, member, rfl⟩ := List.mem_map.mp listed
    exact ⟨pid, member⟩
  have sameNames : w.children.map (·.service.map (·.name)) =
      ((cfg.enabled.map (·.name)).map some).reverse := by
    have mapped := congrArg (List.map (Option.map fun svc : Service => svc.name)) isServices
    simpa [Function.comp_def] using mapped
  have namesDiffer : (w.children.map (·.service.map (·.name))).Nodup ↔
      (cfg.enabled.map (·.name)).Nodup := by
    rw [sameNames, List.nodup_reverse]
    exact List.nodup_map_iff fun _ _ => Option.some.inj
  have isTracked : ∀ {name pid}, trackingOf (namesOf w.children) pid = some name ↔
      (w.children.find? (·.service.map (·.name) = some name)).map (·.pid) = some pid :=
    (trackingOf_eq_some_iff (unique.sublist (pids_namesOf_sublist _))).trans mem_namesOf_iff
  refine Iff.trans ?_ (pairwise_iff_lookup cfg.services).symm
  change _ ↔ (cfg.enabled.map (·.name)).Nodup ∧
    ∀ svc ∈ cfg.enabled, cfg.service? svc.name = some svc
  rw [← namesDiffer, names_nodup_iff unique]
  constructor
  · rintro ⟨tracked, own, -⟩
    constructor
    · intro child member
      obtain ⟨svc, -, isService⟩ := spawnedFor child member
      have there : w.serviceAt? child.pid = some svc :=
        (serviceAt?_eq_some_iff unique).mpr (isService ▸ member)
      have entry := tracked child.pid
      rw [there, Option.map_some] at entry
      simpa [isService] using isTracked.mp entry
    · intro svc isEnabled
      obtain ⟨pid, member⟩ := hasChild svc isEnabled
      exact own pid svc ((serviceAt?_eq_some_iff unique).mpr member)
  · rintro ⟨kept, found⟩
    refine ⟨fun pid => Option.ext fun name => ?_, fun pid svc there => ?_, ?_⟩
    · rw [isTracked, Option.map_eq_some_iff, Option.map_eq_some_iff]
      constructor
      · rintro ⟨child, isFirst, rfl⟩
        have member := List.mem_of_find?_eq_some isFirst
        obtain ⟨svc, -, isService⟩ := spawnedFor child member
        have named := List.find?_some isFirst
        refine ⟨svc, (serviceAt?_eq_some_iff unique).mpr (isService ▸ member), ?_⟩
        simpa [isService] using named
      · rintro ⟨svc, there, rfl⟩
        have first := kept _ ((serviceAt?_eq_some_iff unique).mp there)
        exact Option.map_eq_some_iff.mp first
    · obtain ⟨svc', isEnabled, same⟩ :=
        spawnedFor _ ((serviceAt?_eq_some_iff unique).mp there)
      cases same
      exact found svc isEnabled
    · intro svc status ended
      cases (running svc).symm.trans ended

variable (kernel cfg) in
/-- A boot spawns every enabled service, which are the first ones of their names, or else not even
the first of them. -/
def Bootable : Prop :=
  (EachStep (World.spawned kernel) (Spawns kernel) {} cfg.enabled ∧ NamesFirst cfg) ∨
    ∃ svc back, cfg.enabled = svc :: back ∧ ¬ Spawns kernel {} svc

/-- A boot that has failed is supervised exactly if the services are bootable, which is to say that
not even the first of them could be spawned. -/
theorem supervised_bootFailed_iff {front back : List Service} {svc : Service} {e : SupervisorError}
    (split : cfg.enabled = front ++ svc :: back)
    (each : EachStep (World.spawned kernel) (Spawns kernel) {} front)
    (unable : ¬ Spawns kernel (front.foldl (World.spawned kernel) {}) svc) :
    InitProcess.Supervised cfg
        { world := (front.foldl (World.spawned kernel) {}).spawned kernel svc
          tracking := fun _ => none
          phase := .bootFailed e } ↔ Bootable kernel cfg := by
  obtain ⟨isServices, unique, noneReaped, noneStopped⟩ := spawnAll_spec _ each rfl
  rcases @spawn_cases kernel (front.foldl (World.spawned kernel) {}) svc with
    ⟨-, -, sameChildren, sameReaped, sameStopped⟩ | ⟨able, -⟩
  · constructor
    · intro supervised
      cases front with
      | nil => exact .inr ⟨svc, back, split, unable⟩
      | cons first front =>
        -- The first service has been spawned, and its child is still there.
        have listed : some first ∈
            ((first :: front).foldl (World.spawned kernel) {}).children.map (·.service) := by
          rw [isServices]
          simp
        obtain ⟨⟨pid, _⟩, member, rfl⟩ := List.mem_map.mp listed
        have there := (serviceAt?_eq_some_iff (unique List.nodup_nil)).mpr member
        have gone := supervised.none_left e rfl pid
        unfold World.serviceAt? at there gone
        rw [sameChildren, there] at gone
        cases gone
    · rintro (⟨all, -⟩ | ⟨svc', back', isFirst, unable'⟩)
      · rw [split] at all
        have part : front ++ [svc] <+: front ++ svc :: back :=
          List.prefix_append_right_inj front |>.mpr ⟨back, rfl⟩
        exact absurd (all front svc part) unable
      · cases front with
        | cons first front =>
          rw [isFirst] at split
          cases split
          exact absurd (eachStep_cons_iff.mp each).1 unable'
        | nil =>
          refine ⟨nofun, fun _ _ pid => ?_, fun svc status ended => ?_, ?_⟩
          · unfold World.serviceAt?
            rw [sameChildren]
            rfl
          · rw [sameStopped] at ended
            cases ended
          · exact (sameReaped.trans noneReaped).symm
  · exact absurd able unable

/-- Supervision is exact after a boot exactly if the services are bootable. -/
theorem supervised_start_iff : (start kernel cfg).Supervised cfg ↔ Bootable kernel cfg := by
  rcases @bootFrom_spec kernel {} cfg.services [] rfl with
    ⟨each, after, isAfter, success⟩ | ⟨front, svc, back, e, split, each, unable, failed⟩
  · have started : start kernel cfg =
        { world := after, tracking := trackingOf (namesOf after.children), phase := .looping } := by
      unfold start boot
      rw [success]
    obtain ⟨isServices, unique, noneReaped, noneStopped⟩ := spawnAll_spec _ each isAfter
    have running : ∀ svc, after.stopped svc = none := fun svc =>
      Option.eq_none_iff_forall_ne_some.mpr fun status ended => by
        cases noneStopped svc status ended
    have agrees := agrees_booted_iff (isServices.trans (List.append_nil _))
      (unique List.nodup_nil) running
    rw [started]
    constructor
    · intro supervised
      exact .inl ⟨each, agrees.mp (supervised.exact rfl)⟩
    · rintro (⟨-, first⟩ | ⟨svc, back, isFirst, unable⟩)
      · exact ⟨fun _ => agrees.mpr first, nofun, (agrees.mpr first).kept, noneReaped.symm⟩
      · -- The first of the enabled services has been spawned.
        change EachStep _ _ _ cfg.enabled at each
        rw [isFirst, eachStep_cons_iff] at each
        exact absurd each.1 unable
  · have started : start kernel cfg =
        { world := (front.foldl (World.spawned kernel) {}).spawned kernel svc
          tracking := fun _ => none
          phase := .bootFailed e } := by
      unfold start boot
      rw [failed]
    rw [started]
    exact supervised_bootFailed_iff split each unable

/-! ### Runs -/

/-- Supervision is exact throughout a run exactly if the services are bootable and no restart is
refused. -/
theorem supervised_iff_unrefused (kernel : Kernel) (cfg : InitConfig) (run : List Happening) :
    (start kernel cfg).Supervised cfg ∧
        EachStep (happen kernel cfg)
          (fun s what => (happen kernel cfg s what).Supervised cfg) (start kernel cfg) run ↔
      Bootable kernel cfg ∧
        EachStep (happen kernel cfg) (Unrefused kernel) (start kernel cfg) run := by
  -- Supervision is itself the invariant: a step that keeps it is one that refuses nothing.
  rw [← supervised_start_iff]
  refine and_congr_right fun booted => ?_
  exact eachStep_congr (InitProcess.Supervised cfg) booted (fun _ _ _ stays => stays)
    fun _ what supervised => supervised_happen_iff supervised what

/-- A kernel that counts its forks. -/
def countingKernel : Kernel where
  fork n used := if Int32.ofNat (100 + n) ∈ used then none else some (Int32.ofNat (100 + n))
  fresh := by
    intro n used pid forked
    split at forked
    · cases forked
    · cases forked
      assumption
  lastOsError _ := "Resource temporarily unavailable (os error 11)"

/-- Two services of one name. -/
def twoOfOneName : InitConfig :=
  { services := [{ name := "sshd", exec := "/bin/sshd" }, { name := "sshd", exec := "/bin/ssh2" }] }

/-- The child of the first one is not in the table. -/
theorem first_of_two_untracked :
    ¬ (start countingKernel twoOfOneName).Supervised twoOfOneName := by
  -- The first child has the process id 100, which the second entry of the name leaves out.
  intro supervised
  have tracked := (supervised.exact (by decide +kernel)).tracked 100
  revert tracked
  decide +kernel

end Tatara.Init
