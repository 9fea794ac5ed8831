import Tatara.Reconciler.Transitions

/-! Whether the exports of a Process run before it is gone. -/

namespace Tatara.Reconciler

open Tatara.Rust Tatara.Crd
open Tatara.Program (MarksOnce Quiet Runs runs_pure_iff)

/-- The exports of a Process that fire on a gate, each with its place among all of them. -/
def firing (p : Process) (gate : ProcessPhase) : List (ExportSpec × Nat) :=
  match p.spec.lifetime.resolvedEphemeral with
  | none => []
  | some e => e.exports.zipIdx.filter fun entry => entry.1.trigger.firesOn gate

/-- What a lifetime that resolves has in its ephemeral slot. -/
theorem ephemeral_of_resolved {lifetime : Lifetime} {e : EphemeralLifetime}
    (resolved : lifetime.resolvedEphemeral = some e) : lifetime.ephemeral = some e := by
  -- A permanent slot beside it would have hidden it.
  unfold Lifetime.resolvedEphemeral at resolved
  split at resolved
  · rename_i slot
    rw [slot, resolved]
  · cases resolved

/-- An export that fires is in the lifetime that resolves, and its trigger is that of the gate. -/
theorem exists_of_firing {p : Process} {gate : ProcessPhase} {entry : ExportSpec × Nat}
    (fires : entry ∈ firing p gate) :
    ∃ e, p.spec.lifetime.resolvedEphemeral = some e ∧ entry.1 ∈ e.exports ∧
      entry.1.trigger.firesOn gate = true := by
  unfold firing at fires
  split at fires
  · cases fires
  · rename_i e resolved
    obtain ⟨placed, matching⟩ := List.mem_filter.mp fires
    -- An entry is at its place because the export is in the list.
    have listed := List.mem_zipIdx' placed
    exact ⟨e, resolved, by simp [listed.2], matching⟩

/-- An export that fires counts as applicable. -/
theorem hasApplicableExports_of_firing {p : Process} {gate : ProcessPhase}
    {entry : ExportSpec × Nat} (fires : entry ∈ firing p gate) :
    hasApplicableExports p gate = true := by
  -- What fires is in the ephemeral slot, and there the predicate looks.
  obtain ⟨e, resolved, listed, matching⟩ := exists_of_firing fires
  rw [hasApplicableExports, ephemeral_of_resolved resolved]
  exact List.any_eq_true.mpr ⟨entry.1, listed, matching⟩

/-- The gate from which `handle_releasing` takes a Process to come. -/
def releasedFrom (p : Process) : ProcessPhase :=
  ProcessPhase.parseReleasedFrom (p.annotation releasedFromAnnotation)

/-- The Jobs that a reconcile has applied are on the lists of Jobs that it gets afterwards. -/
def ListsApplied (events : List Event) : Prop :=
  ∀ front ns selector jobs back,
    events = front ++ ⟨.request (.listJobs ns selector), .ok jobs⟩ :: back →
    ∀ coords, (⟨.request (.applyObject ns coords), .ok ()⟩ : Event) ∈ front →
      coords.kind = "Job" → ∃ job ∈ jobs, job.name = coords.name

/-- The Job of an export was found to have come to its end. -/
def Finished (events : List Event) (p : Process) (entry : ExportSpec × Nat) : Prop :=
  ∃ ns selector jobs, (⟨.request (.listJobs ns selector), .ok jobs⟩ : Event) ∈ events ∧
    ∃ job ∈ jobs, job.name = exportJobName p.metadata.name entry.2 ∧ job.outcome ≠ .active

section

variable [Crates]

/-- What has been applied went out as a request. -/
theorem runs_applyOwned_ok {p : Process} {ns : String} {coords : RenderedResourceCoords}
    {events : List Event} (runs : Runs (applyOwned p ns coords).run events (.ok ())) :
    (⟨.request (.applyObject ns coords), .ok ()⟩ : Event) ∈ events := by
  unfold applyOwned at runs
  split at runs
  -- Without a UID or a plural it fails before the request goes out.
  · cases (runs_pure_iff.mp runs).2
  · cases (runs_pure_iff.mp runs).2
  · rw [runs_request_ok runs]
    exact List.mem_singleton_self _

/-- The Jobs of the exports that fire are applied, all of them, before the handler goes on. -/
theorem runs_applyJobs {p : Process} {gate : ProcessPhase} {events : List Event}
    (runs : Runs ((renderExportJobs p gate).forM fun job =>
      errCtx "apply export job" (applyOwned p p.namespaceOrDefault job).run).run events (.ok ()))
    {entry : ExportSpec × Nat} (fires : entry ∈ firing p gate) :
    ∃ coords, (⟨.request (.applyObject p.namespaceOrDefault coords), .ok ()⟩ : Event) ∈ events ∧
      coords.kind = "Job" ∧ coords.name = exportJobName p.metadata.name entry.2 := by
  have rendered : { apiVersion := "batch/v1", kind := "Job"
                    name := exportJobName p.metadata.name entry.2
                    ns := some p.namespaceOrDefault } ∈ renderExportJobs p gate := by
    unfold firing at fires
    unfold renderExportJobs
    cases resolved : p.spec.lifetime.resolvedEphemeral with
    | none =>
      rw [resolved] at fires
      cases fires
    | some e =>
      rw [resolved] at fires
      exact List.mem_map.mpr ⟨entry, fires, rfl⟩
  obtain ⟨part, wrapped, inside⟩ := runs_forM_ok runs _ rendered
  -- An error of the application would have been an error of the loop.
  obtain ⟨answer, applied, same⟩ := runs_errCtx wrapped
  cases answer with
  | error e => cases same
  | ok a => exact ⟨_, inside (runs_applyOwned_ok applied), rfl, rfl⟩

/-- `handle_releasing` lets a Process go only once the Jobs of all its exports have come to their
end. -/
theorem handleReleasing_finished {p : Process} {events : List Event}
    {outcome : Except String Action} {phase : ProcessPhase}
    (runs : Runs (handleReleasing p).run events outcome)
    (writes : phase ∈ events.filterMap Event.phase) (honest : ListsApplied events)
    {entry : ExportSpec × Nat} (fires : entry ∈ firing p (releasedFrom p)) :
    Finished events p entry := by
  obtain ⟨e, resolved, listed, matching⟩ := exists_of_firing fires
  have applicable : (p.spec.lifetime.ephemeral.toList.flatMap (·.exports)).filter
      (fun spec => spec.trigger.firesOn (releasedFrom p)) ≠ [] := by
    rw [ephemeral_of_resolved resolved]
    exact List.ne_nil_of_mem (List.mem_filter.mpr ⟨by simpa using listed, matching⟩)
  unfold handleReleasing at runs
  unfold releasedFrom at applicable fires
  dsimp only at runs
  rw [if_neg applicable] at runs
  -- The Jobs are applied and listed before any phase is written.
  obtain ⟨front, _, back, applying, rest, rfl, behind⟩ :=
    Quiet.marked_behind_try (Quiet.forM _ fun job => errCtx_quiet (applyOwned_silent _ _ _)) runs
      writes
  obtain ⟨lists, jobs, last, listing, decided, rfl, after⟩ :=
    Quiet.marked_behind_try (request_quiet fun _ => rfl) rest behind
  obtain rfl := runs_request_ok listing
  obtain ⟨coords, applied, kind, name⟩ := runs_applyJobs applying fires
  obtain ⟨job, among, named⟩ := honest front _ _ jobs last rfl coords applied kind
  refine ⟨_, _, jobs, by simp, job, among, named.trans name, ?_⟩
  intro active
  -- As long as one of the listed Jobs is at work, the Process stays where it is.
  have waiting : 0 < (jobs.map JobStatus.outcome).count .active := by
    rw [List.count_pos_iff, ← active]
    exact List.mem_map_of_mem among
  rw [if_pos (.inl waiting)] at decided
  obtain ⟨rfl, -⟩ := runs_pure_iff.mp decided
  cases after

/-- The lifetime of an attested Process leads to its exports, where there are some. -/
theorem handleAttested_kept {p : Process} (exports : hasApplicableExports p .attested = true) :
    Writes (fun phase => phase = .releasing ∨ phase = .reconverging) (handleAttested p).run := by
  refine MarksOnce.tryAfter utcNow_silent.lift fun now => ?_
  rw [exports]
  split
  · -- The clock has gone off, and there are exports to run first.
    exact transitionToReleasing_writes _ (.inl rfl)
  · refine MarksOnce.tryAfter (anyDrift_silent _) fun drift => ?_
    split
    · exact transition_then_writes (transitionMsg_writes (.inr rfl))
    · exact (Quiet.pure _).marksOnce

/-- A failed Process whose lifetime is over is led to its exports, where there are some. -/
theorem handleFailed_kept {p : Process} {events : List Event} {outcome : Except String Action}
    {phase : ProcessPhase} (runs : Runs (handleFailed p).run events outcome)
    (writes : phase ∈ events.filterMap Event.phase)
    (exports : hasApplicableExports p .failed = true)
    (past : ∀ now, (⟨.now, now⟩ : Event) ∈ events → lifetimeClock p .failed now ≠ .skip) :
    phase = .releasing := by
  obtain ⟨now, back, rfl, rest⟩ := runs_utcNow_then runs
  -- To look at the clock writes no phase.
  have behind : phase ∈ back.filterMap Event.phase := writes
  cases clock : lifetimeClock p .failed now with
  | skip => exact absurd clock (past now List.mem_cons_self)
  | now reason =>
    rw [clock] at rest
    simp only [exports, if_true] at rest
    have released : Writes (· = .releasing) (transitionToReleasing reason.render).run :=
      transitionToReleasing_writes _ rfl
    exact released.allowed_of_mem rest behind

/-- The controller, started on this Process, can go through these rounds and leave that one. -/
inductive Continues (config : Config) (start : Process) : List Round → Process → Prop where
  | start : Continues config start [] start
  | outside {p q : Process} {rounds : List Round} (before : Continues config start rounds p)
      (kept : q.status = p.status) : Continues config start rounds q
  | reconcile {p q : Process} {rounds : List Round} {events : List Event}
      {written : List ProcessPhase} {action : Action} (before : Continues config start rounds p)
      (runs : Runs (reconcile config p) events action) (lands : Lands p events written q) :
      Continues config start (rounds ++ [⟨p, events, written⟩]) q

end

/-- The phase that is stored, and the gate from which the Process was released last. -/
structure Standing where
  phase : ProcessPhase
  gate : ProcessPhase

namespace Standing

/-- The standing once a phase is stored. -/
def next (s : Standing) (phase : ProcessPhase) : Standing :=
  { phase, gate := if phase = .releasing ∧ s.phase ≠ .releasing then s.phase else s.gate }

/-- The standing of a Process behind these rounds. -/
def after (start : Process) (rounds : List Round) : Standing :=
  (writes rounds).foldl (fun s write => s.next write.phase)
    { phase := start.observedPhaseOrPending, gate := releasedFrom start }

/-- After some writes the phase is the one that was written last. -/
theorem phase_foldl_next (written : List Write) (s : Standing) :
    (written.foldl (fun s write => s.next write.phase) s).phase =
      written.foldl (fun _ write => write.phase) s.phase := by
  induction written generalizing s with
  | nil => rfl
  | cons write written ih => exact ih (s.next write.phase)

end Standing

/-- What has been seen by the time at which a phase is stored is enough for the exports. -/
structure KeptExports (seen : List Event) (s : Standing) (p : Process) (phase : ProcessPhase) :
    Prop where
  /-- A gate with exports is not left for `Exiting` or `Zombie`. -/
  through : s.phase = .attested ∨ s.phase = .failed → firing p s.phase ≠ [] →
    phase ≠ .exiting ∧ phase ≠ .zombie
  /-- `Releasing` is not left before the exports of the gate have come to their end. -/
  finished : s.phase = .releasing → phase ≠ .releasing → ∀ entry ∈ firing p s.gate,
    Finished seen p entry

/-- No round skips the exports. -/
def KeepsExports (start : Process) (rounds : List Round) : Prop :=
  ∀ front round back, rounds = front ++ round :: back → ∀ phase ∈ round.written,
    KeptExports ((front ++ [round]).flatMap (·.events)) (Standing.after start front) round.read
      phase

/-- What is kept of all rounds is kept of the last one. -/
theorem KeepsExports.last {start : Process} {rounds : List Round} {round : Round}
    (keeps : KeepsExports start (rounds ++ [round])) {phase : ProcessPhase}
    (stored : phase ∈ round.written) :
    KeptExports ((rounds ++ [round]).flatMap (·.events)) (Standing.after start rounds) round.read
      phase :=
  keeps rounds round [] rfl phase stored

/-- Nobody asks for the end of the Process. -/
structure Unforced (p : Process) : Prop where
  kept : p.isBeingDeleted = false
  unsignalled : pendingSignal p ≠ some .sigterm

/-- Nothing comes between a Process and the exports that are due. -/
structure Orderly [Crates] (s : Standing) (round : Round) : Prop where
  attested : s.phase = .attested → firing round.read .attested ≠ [] →
    Unforced round.read ∧
      (pendingSignal round.read = some .sighup → round.read.spec.sighupStrategy ≠ .restart)
  /-- The lifetime of a failed Process is over when the handler looks at it. -/
  failed : s.phase = .failed → firing round.read .failed ≠ [] →
    ∀ now, (⟨.now, now⟩ : Event) ∈ round.events → lifetimeClock round.read .failed now ≠ .skip
  /-- The exports run undisturbed, and the annotation still says which ones they are. -/
  releasing : s.phase = .releasing → firing round.read s.gate ≠ [] →
    Unforced round.read ∧ pendingSignal round.read ≠ some .sigkill ∧
      releasedFrom round.read = s.gate ∧ ListsApplied round.events

/-- A place in a list with one more at its end is this end or a place in the list. -/
theorem split_concat {α : Type} {l front back : List α} {a x : α}
    (same : l ++ [a] = front ++ x :: back) :
    (back = [] ∧ front = l ∧ x = a) ∨
      ∃ shorter, back = shorter ++ [a] ∧ l = front ++ x :: shorter := by
  -- Either it is the last one that is taken out, or the last one is the end of what is behind.
  rcases List.eq_nil_or_concat back with rfl | ⟨shorter, last, rfl⟩
  · obtain ⟨fronts, lasts⟩ := List.append_inj' same rfl
    exact .inl ⟨rfl, fronts.symm, (List.cons.inj lasts).1.symm⟩
  · have same : l ++ [a] = (front ++ x :: shorter) ++ [last] := by simpa using same
    obtain ⟨fronts, lasts⟩ := List.append_inj' same rfl
    obtain rfl := (List.cons.inj lasts).1
    exact .inr ⟨shorter, by simp, fronts⟩

section

variable [Crates] {config : Config}

/-- The phase that is observed is the one that was stored last. -/
theorem Continues.observedPhase {start p : Process} {rounds : List Round}
    (continues : Continues config start rounds p) :
    p.observedPhaseOrPending = (Standing.after start rounds).phase := by
  rw [Standing.after, Standing.phase_foldl_next]
  -- What happens outside leaves the status, and a round leaves the phase that it has stored last.
  induction continues with
  | start => rfl
  | outside before kept ih => rw [observedPhase_congr kept, ih]
  | reconcile before runs lands ih =>
    rw [lands.observedPhase, ih, writes_concat, List.foldl_append, List.foldl_map]

omit [Crates] in
/-- What is listed honestly in all events is so in the later ones. -/
theorem ListsApplied.behind {front back : List Event} (honest : ListsApplied (front ++ back)) :
    ListsApplied back := by
  intro before ns selector jobs after parts coords applied kind
  refine honest (front ++ before) ns selector jobs after ?_ coords ?_ kind
  · rw [parts, List.append_assoc]
  · exact List.mem_append_right front applied

omit [Crates] in
/-- With more events a Job that had finished has finished. -/
theorem Finished.mono {events more : List Event} {p : Process} {entry : ExportSpec × Nat}
    (finished : Finished events p entry) (subset : events ⊆ more) : Finished more p entry := by
  obtain ⟨ns, selector, jobs, listed, ended⟩ := finished
  exact ⟨ns, selector, jobs, subset listed, ended⟩

omit [Crates] in
/-- Of the signals, only a termination and a hangup that restarts take an attested Process to
`Exiting`. -/
theorem target_attested {signal : ProcessSignal} {strategy : SighupStrategy} {phase : ProcessPhase}
    (target : (applySignal .attested signal strategy).target = some phase)
    (notTerm : signal ≠ .sigterm) (notRestart : signal = .sighup → strategy ≠ .restart) :
    phase ≠ .exiting ∧ phase ≠ .zombie := by
  -- A kill leads to `Reaped`, and the other signals back to work or nowhere.
  cases signal with
  | sighup =>
    cases strategy with
    | reconverge =>
      obtain rfl := Option.some.inj target
      decide
    | restart => exact absurd rfl (notRestart rfl)
    | noop => cases target
  | sigterm => exact absurd rfl notTerm
  | sigkill =>
    obtain rfl := Option.some.inj target
    decide
  | sigusr1 =>
    obtain rfl := Option.some.inj target
    decide
  | sigusr2 =>
    obtain rfl := Option.some.inj target
    decide
  | sigstop => cases target
  | sigcont => cases target

omit [Crates] in
/-- Of the signals, only a termination and a kill take a Process out of `Releasing`. -/
theorem target_releasing {signal : ProcessSignal} {strategy : SighupStrategy}
    {phase : ProcessPhase}
    (target : (applySignal .releasing signal strategy).target = some phase) :
    signal = .sigterm ∨ signal = .sigkill := by
  -- All other signals leave a Process that is releasing where it is.
  cases signal with
  | sighup => cases strategy <;> cases target
  | sigterm => exact .inl rfl
  | sigkill => exact .inr rfl
  | sigusr1 => cases target
  | sigusr2 => cases target
  | sigstop => cases target
  | sigcont => cases target

/-- A reconcile with nothing in its way keeps the exports. -/
theorem reconcile_keptExports {p : Process} {events : List Event} {action : Action}
    {phase : ProcessPhase} {s : Standing} {written : List ProcessPhase}
    (runs : Runs (reconcile config p) events action)
    (writes : phase ∈ events.filterMap Event.phase) (found : p.observedPhaseOrPending = s.phase)
    (orderly : Orderly s ⟨p, events, written⟩) : KeptExports events s p phase := by
  have source := written_by runs writes
  rw [found] at source
  refine ⟨?_, ?_⟩
  · -- At the gate.
    intro gate exports
    obtain ⟨entry, fires⟩ := List.exists_mem_of_ne_nil _ exports
    have applicable := hasApplicableExports_of_firing fires
    rcases gate with attested | failed
    · rw [attested] at source exports applicable
      obtain ⟨unforced, hangup⟩ := orderly.attested attested exports
      rcases source with ⟨stamped, -⟩ | ⟨signal, sent, -, target⟩ |
        ⟨front, back, outcome, -, -, handled, behind⟩
      · -- A deletion would have been forced on the Process.
        rw [unforced.kept] at stamped
        cases stamped
      · refine target_attested target ?_ ?_
        · intro term
          exact unforced.unsignalled (term ▸ sent)
        · intro hup
          exact hangup (hup ▸ sent)
      · rcases (handleAttested_kept applicable).allowed_of_mem handled behind with rfl | rfl
        · decide
        · decide
    · rw [failed] at source exports applicable
      rcases source with ⟨-, alive, -⟩ | ⟨_, -, alive, -⟩ |
        ⟨front, back, outcome, rfl, -, handled, behind⟩
      · -- Deletions and signals are for Processes that are alive.
        cases alive
      · cases alive
      · have past := orderly.failed failed exports
        obtain rfl := handleFailed_kept handled behind applicable fun now looked =>
          past now (List.mem_append_right front looked)
        decide
  · -- In `Releasing`.
    intro releasing left entry fires
    obtain ⟨unforced, unkilled, annotated, honest⟩ :=
      orderly.releasing releasing (List.ne_nil_of_mem fires)
    rw [releasing] at source
    rcases source with ⟨stamped, -⟩ | ⟨signal, sent, -, target⟩ |
      ⟨front, back, outcome, rfl, -, handled, behind⟩
    · rw [unforced.kept] at stamped
      cases stamped
    · rcases target_releasing target with rfl | rfl
      · exact absurd sent unforced.unsignalled
      · exact absurd sent unkilled
    · -- The handler has seen the Jobs of the gate that the annotation names.
      refine Finished.mono ?_ (List.subset_append_right front back)
      exact handleReleasing_finished handled behind honest.behind (annotated ▸ fires)

/-- In every run, wherever nothing comes between a Process and the exports that are due, the exports
are kept. -/
theorem continues_keepsExports {start p : Process} {rounds : List Round}
    (continues : Continues config start rounds p)
    (orderly : ∀ front round back, rounds = front ++ round :: back →
      Orderly (Standing.after start front) round) : KeepsExports start rounds := by
  induction continues with
  | start =>
    intro front round back parts
    simp at parts
  | outside before kept ih => exact ih orderly
  | reconcile before runs lands ih =>
    rename_i read left earlierRounds events written action
    intro front round back parts phase stored
    rcases split_concat parts with ⟨rfl, rfl, rfl⟩ | ⟨shorter, -, inside⟩
    · -- What came to be stored in the last round, its reconcile has written.
      have writes := lands.written_sublist.subset stored
      have kept := reconcile_keptExports runs writes before.observedPhase (orderly _ _ [] rfl)
      refine ⟨kept.through, fun releasing left entry fires => ?_⟩
      refine (kept.finished releasing left entry fires).mono ?_
      intro event among
      simp [among]
    · refine ih ?_ front round shorter inside phase stored
      -- The rounds before the last one are in order as well.
      intro earlier other later between
      refine orderly earlier other (later ++ [⟨read, events, written⟩]) ?_
      rw [between, List.append_assoc, List.cons_append]

/-- A round in which nothing fails continues a run. -/
theorem continues_calm {start p : Process} {rounds : List Round}
    (before : Continues config start rounds p) (now : DateTime) :
    Continues config start (rounds ++ [calmRound config now p]) (calmRound config now p).left :=
  before.reconcile (Program.runs_play _ _) (Lands.all _ _)

/-- So do several of them. -/
theorem continues_calmRounds {start p : Process} {rounds : List Round}
    (before : Continues config start rounds p) (now : DateTime) (n : Nat) :
    Continues config start (rounds ++ calmRounds config now n p) (calmLeft config now n p) := by
  -- Each round goes on from the Process that the one before has left.
  induction n generalizing rounds p with
  | zero => simpa [calmRounds, calmLeft] using before
  | succ n ih => simpa [calmRounds, calmLeft] using ih (continues_calm before now)

end

/-- A Process with an export to run once it is attested. -/
def exporter (policy : TeardownPolicy) (status : Option ProcessStatus) : Process :=
  { metadata := { name := "demo", uid := some "1" }
    spec :=
      { intent := { flux := some .null }
        lifetime :=
          { ephemeral := some
              { ttl := "1h", teardownPolicy := policy, exports := [⟨.onAttested, .null⟩] } }
        rest := .null }
    status }

/-- The answers of a server that is well, once the Job of the first export has succeeded. -/
def calmFinished (p : Process) (now : DateTime) : (c : Call) → Answer c
  | .request (.listJobs _ _) => .ok [⟨exportJobName p.metadata.name 0, some 1, none⟩]
  | c => calm p now c

/-- A round in which that server answers, and nobody else is at work. -/
def finishedRound [Crates] (config : Config) (now : DateTime) (p : Process) : Round :=
  let events := ((reconcile config p).play (calmFinished p now)).1
  ⟨p, events, events.filterMap Event.phase⟩

/-- The Process that is attested and is to be torn down. -/
def attestedToTearDown : Process := exporter .always (some { phase := .attested })

/-- The Process once it is released. -/
def releasedExporter [Crates] : Process :=
  (calmRound plainConfig ⟨0⟩ attestedToTearDown).left

/-- Every Job that an event applies is the one of the first export. -/
def AppliesFirst (event : Event) : Bool :=
  match event with
  | ⟨.request (.applyObject _ coords), _⟩ => coords.name = exportJobName "demo" 0
  | _ => true

/-- An attested Process that is torn down is released first, and leaves `Releasing` when the Job of
its export has come to its end. -/
theorem continues_keepsExports_attested :
    let _ := plainCrates
    let rounds := [calmRound plainConfig ⟨0⟩ attestedToTearDown,
      finishedRound plainConfig ⟨0⟩ releasedExporter]
    KeepsExports attestedToTearDown rounds ∧
      rounds.flatMap Round.written = [.releasing, .exiting] := by
  intro _ rounds
  have continues : Continues plainConfig attestedToTearDown rounds _ :=
    (continues_calm .start ⟨0⟩).reconcile (Program.runs_play (calmFinished releasedExporter ⟨0⟩) _)
      (Lands.all _ _)
  refine ⟨continues_keepsExports continues ?_, by decide +kernel⟩
  intro front round back parts
  rcases front with _ | ⟨first, _ | ⟨second, front⟩⟩
  · -- At the gate nobody asks for the end of the Process.
    obtain ⟨rfl, -⟩ := List.cons.inj parts
    exact ⟨fun _ _ => ⟨⟨rfl, by decide⟩, by decide⟩, nofun, nofun⟩
  · -- In `Releasing` the Job that has been applied is the one that is listed.
    obtain ⟨rfl, others⟩ := List.cons.inj parts
    obtain ⟨rfl, -⟩ := List.cons.inj others
    have listed : ListsApplied (finishedRound plainConfig ⟨0⟩ releasedExporter).events := by
      intro before ns selector jobs behind whole coords applied kind
      have each : (finishedRound plainConfig ⟨0⟩ releasedExporter).events.all AppliesFirst = true := by
        decide +kernel
      rw [whole, List.all_append, Bool.and_eq_true, List.all_eq_true] at each
      have named := each.1 _ applied
      -- The server has one answer to every request for the Jobs.
      have asked : (⟨.request (.listJobs ns selector), .ok jobs⟩ : Event) ∈
          (finishedRound plainConfig ⟨0⟩ releasedExporter).events := by
        rw [whole]
        exact List.mem_append_right _ List.mem_cons_self
      obtain rfl := Except.ok.inj (Program.play_answered (calmFinished releasedExporter ⟨0⟩)
        (reconcile plainConfig releasedExporter) _ asked)
      exact ⟨_, List.mem_singleton_self _, (of_decide_eq_true named).symm⟩
    exact ⟨nofun, nofun, fun _ _ => ⟨⟨by decide +kernel, by decide +kernel⟩, by decide +kernel,
      by decide +kernel, listed⟩⟩
  · have lengths := congrArg List.length parts
    simp [rounds] at lengths

/-- A Process with a request for its termination. -/
def terminate (p : Process) : Process :=
  { p with metadata.annotations := [( signalAnnotation, "SIGTERM")] }

theorem terminate_status (p : Process) : (terminate p).status = p.status := rfl

/-- The Process once it has been attested. -/
def attestedExporter [Crates] : Process := calmLeft plainConfig ⟨0⟩ 4 (exporter .never none)

/-- A termination takes an attested Process past its exports. -/
theorem not_keepsExports_terminated :
    let _ := plainCrates
    ∃ rounds q, Continues plainConfig (exporter .never none) rounds q ∧
      ¬ KeepsExports (exporter .never none) rounds := by
  intro _
  -- Four rounds take the Process from `Pending` to `Attested`.
  have attested : Continues plainConfig (exporter .never none) _ attestedExporter :=
    continues_calmRounds .start ⟨0⟩ 4
  have annotated : Continues plainConfig (exporter .never none) _ (terminate attestedExporter) :=
    attested.outside (terminate_status _)
  refine ⟨_, _, continues_calm annotated ⟨0⟩, ?_⟩
  intro keeps
  -- The last round stores `Exiting` for a Process that is attested and has an export to run.
  have kept := keeps.last (show ProcessPhase.exiting ∈ _ by decide +kernel)
  exact (kept.through (.inl (by decide +kernel)) (by decide +kernel)).1 rfl

end Tatara.Reconciler
