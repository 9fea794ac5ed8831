import Tatara.Cluster.StateMachine
import Mathlib.Data.List.Nodup

/-! Optimistic concurrency of the schedulers: proposals are serialized by their generation. -/

namespace Tatara.Cluster

open Tatara.Rust Tatara.Domain

/-- The generation of a proposal that was accepted, read off an entry and its response. -/
def acceptedGeneration : Entry → ClusterResponse → Option UInt64
  -- A rejected proposal is answered by an error.
  | ⟨_, .normal (.proposeAllocations expectedGeneration _ _)⟩, .ok => some expectedGeneration
  | _, _ => none

/-- Whether an entry is a proposal. -/
def Entry.proposes : Entry → Bool
  | ⟨_, .normal (.proposeAllocations _ _ _)⟩ => true
  | _ => false

/-- A proposal is accepted in the generation it expects, and moves on to the next one. -/
theorem proposeAllocations_cases (state : ClusterState) (expectedGeneration : UInt64)
    (allocations : List DesiredAllocationState) (jobStatusUpdates : List (String × JobStatus)) :
    (state.schedulingGeneration = expectedGeneration ∧
        (state.proposeAllocations expectedGeneration allocations jobStatusUpdates).1 = .ok ∧
        (state.proposeAllocations expectedGeneration allocations
          jobStatusUpdates).2.schedulingGeneration = expectedGeneration + 1) ∨
      (∃ message, state.proposeAllocations expectedGeneration allocations jobStatusUpdates =
        (.error message, state)) := by
  -- The comparison of the two generations decides.
  unfold ClusterState.proposeAllocations
  split
  · exact .inr ⟨_, rfl⟩
  · rename_i expected
    have same := not_not.mp expected
    exact .inl ⟨same, rfl, by rw [← same]⟩

/-- No command but a proposal touches the generation. -/
theorem applyCommand_generation {cmd : ClusterCommand} {readings : Readings} {state : ClusterState}
    (other : ∀ expectedGeneration allocations jobStatusUpdates,
      cmd ≠ .proposeAllocations expectedGeneration allocations jobStatusUpdates) :
    (applyCommand readings cmd state).2.schedulingGeneration = state.schedulingGeneration := by
  -- The generation is written by proposals alone.
  cases cmd with
  | proposeAllocations => exact absurd rfl (other _ _ _)
  | _ => exact (applyCommand_sameBut readings _ state).schedulingGeneration rfl

namespace StateMachineData

/-- The generation that the next proposal has to expect. -/
def generation (data : StateMachineData) : UInt64 := data.clusterState.schedulingGeneration

/-- The generations of the proposals that a run accepts, in the order of the log. -/
def accepted (inputs : List (Readings × Entry)) (data : StateMachineData) : List UInt64 :=
  ((inputs.map Prod.snd).zip (data.apply inputs).1).filterMap fun (entry, response) =>
    acceptedGeneration entry response

/-- An entry is an accepted proposal of the current generation, which moves on by one, or it leaves
the generation, and the whole state as well if it is a proposal. -/
theorem applyEntry_scheduling (readings : Readings) (entry : Entry) (data : StateMachineData) :
    (acceptedGeneration entry (applyEntry readings entry data).1 = some data.generation ∧
        (applyEntry readings entry data).2.generation = data.generation + 1) ∨
      (acceptedGeneration entry (applyEntry readings entry data).1 = none ∧
        (applyEntry readings entry data).2.generation = data.generation ∧
        (entry.proposes = true →
          (applyEntry readings entry data).2.clusterState = data.clusterState)) := by
  -- Entries without a command cannot propose.
  obtain ⟨logId, payload⟩ := entry
  cases payload with
  | blank => exact .inr ⟨rfl, rfl, by simp [Entry.proposes]⟩
  | membership membership => exact .inr ⟨rfl, rfl, by simp [Entry.proposes]⟩
  | normal cmd =>
    by_cases proposal : (Entry.mk logId (.normal cmd)).proposes = true
    · cases cmd with
      | proposeAllocations expectedGeneration allocations jobStatusUpdates =>
        rcases proposeAllocations_cases data.clusterState expectedGeneration allocations
          jobStatusUpdates with ⟨same, response, next⟩ | ⟨message, rejected⟩
        · left
          simp only [applyEntry, applyCommand, response, generation, next, same, and_true]
          rfl
        · right
          simp only [applyEntry, applyCommand, rejected, generation, implies_true, and_true]
          rfl
      | _ => cases proposal
    · -- Any other command is no proposal and leaves the generation alone.
      have other : ∀ expectedGeneration allocations jobStatusUpdates,
          cmd ≠ .proposeAllocations expectedGeneration allocations jobStatusUpdates := by
        rintro _ _ _ rfl
        exact proposal rfl
      refine .inr ⟨?_, applyCommand_generation other, fun proposes => absurd proposes proposal⟩
      unfold acceptedGeneration
      split
      · rename_i same _
        cases same
        exact absurd rfl (other _ _ _)
      · rfl

/-- The proposals that a run accepts are those of its first entry and of the rest. -/
theorem accepted_cons (readings : Readings) (entry : Entry) (inputs : List (Readings × Entry))
    (data : StateMachineData) :
    accepted ((readings, entry) :: inputs) data =
      (acceptedGeneration entry (applyEntry readings entry data).1).toList ++
        accepted inputs (applyEntry readings entry data).2 := by
  -- The first response belongs to the first entry.
  simp only [accepted, apply, Machine.run_cons, List.map_cons, List.zip_cons_cons,
    List.filterMap_cons]
  split <;> rename_i found <;> simp [found]

/-- The proposals that a run accepts are those of its two parts. -/
theorem accepted_append (front back : List (Readings × Entry)) (data : StateMachineData) :
    accepted (front ++ back) data = accepted front data ++ accepted back (data.apply front).2 := by
  -- The second part is applied to what the first one leaves.
  induction front generalizing data with
  | nil => rfl
  | cons input front ih =>
    obtain ⟨readings, entry⟩ := input
    rw [List.cons_append, accepted_cons, accepted_cons, ih, List.append_assoc]
    rfl

/-- While the counter has room, the accepted proposals carry consecutive generations from the
current one on, and the counter ends behind the last of them. -/
theorem accepted_consecutive (inputs : List (Readings × Entry)) (data : StateMachineData)
    (room : data.generation.toNat + (accepted inputs data).length < 2 ^ 64) :
    (accepted inputs data).map UInt64.toNat =
        List.range' data.generation.toNat (accepted inputs data).length ∧
      (data.apply inputs).2.generation.toNat =
        data.generation.toNat + (accepted inputs data).length := by
  -- The counter is followed along the log, one entry at a time.
  induction inputs generalizing data with
  | nil => exact ⟨rfl, rfl⟩
  | cons input inputs ih =>
    obtain ⟨readings, entry⟩ := input
    rw [accepted_cons] at room ⊢
    rcases applyEntry_scheduling readings entry data with ⟨found, next⟩ | ⟨found, next, -⟩
    · -- An accepted proposal carries the current generation.
      rw [found] at room ⊢
      simp only [Option.toList_some, List.singleton_append, List.length_cons] at room ⊢
      -- The counter moves on by one without running over.
      have moved : (applyEntry readings entry data).2.generation.toNat =
          data.generation.toNat + 1 := by
        rw [next, UInt64.toNat_add, UInt64.toNat_one, Nat.mod_eq_of_lt (by omega)]
      obtain ⟨consecutive, last⟩ := ih (applyEntry readings entry data).2 (by rw [moved]; omega)
      rw [moved] at consecutive last
      refine ⟨?_, ?_⟩
      · rw [List.map_cons, consecutive, List.range'_succ]
      · exact last.trans (by omega)
    · -- Any other entry leaves both the counter and the list.
      rw [found] at room ⊢
      simp only [Option.toList_none, List.nil_append] at room ⊢
      rw [← next] at room ⊢
      exact ih (applyEntry readings entry data).2 room

/-- As long as the counter does not run over, it grows by one with each accepted proposal and stays
with every other entry, no two accepted proposals carry one generation, and a rejected proposal
leaves the whole state as it was. -/
theorem proposals_serialized (inputs : List (Readings × Entry)) (data : StateMachineData)
    (room : data.generation.toNat + (accepted inputs data).length < 2 ^ 64) :
    (∀ front readings entry back, inputs = front ++ (readings, entry) :: back →
      (applyEntry readings entry (data.apply front).2).2.generation.toNat =
          (data.apply front).2.generation.toNat +
            (if (acceptedGeneration entry
              (applyEntry readings entry (data.apply front).2).1).isSome then 1 else 0) ∧
        (entry.proposes = true →
          acceptedGeneration entry (applyEntry readings entry (data.apply front).2).1 = none →
          (applyEntry readings entry (data.apply front).2).2.clusterState =
            (data.apply front).2.clusterState)) ∧
      (accepted inputs data).Nodup ∧
      (data.apply inputs).2.generation.toNat =
        data.generation.toNat + (accepted inputs data).length := by
  -- The accepted generations are consecutive, which settles the last two parts at once.
  obtain ⟨consecutive, last⟩ := accepted_consecutive inputs data room
  refine ⟨?_, ?_, last⟩
  · rintro front readings entry back rfl
    rw [accepted_append, accepted_cons, List.length_append, List.length_append] at room
    have reached := (accepted_consecutive front data (by omega)).2
    rcases applyEntry_scheduling readings entry (data.apply front).2 with
      ⟨found, next⟩ | ⟨found, next, unchanged⟩
    · -- The entries up to this one leave room for one more.
      rw [found] at room ⊢
      simp only [Option.toList_some, List.length_singleton] at room
      refine ⟨?_, fun _ rejected => by cases rejected⟩
      rw [next, UInt64.toNat_add, UInt64.toNat_one, Nat.mod_eq_of_lt (by omega)]
      rfl
    · rw [found, next]
      exact ⟨rfl, fun proposes _ => unchanged proposes⟩
  · -- Consecutive numbers are distinct.
    refine List.Nodup.of_map UInt64.toNat ?_
    rw [consecutive]
    exact List.nodup_range'

/-- A proposal for a generation that places nothing. -/
def proposal (index expectedGeneration : UInt64) : Readings × Entry :=
  (.still ⟨0⟩,
    ⟨⟨⟨1, 1⟩, index⟩, .normal (.proposeAllocations expectedGeneration [] [])⟩)

/-- Of three schedulers, two of which expect the same generation, two are served. -/
theorem proposals_serialized_race :
    accepted [proposal 0 0, proposal 1 0, proposal 2 1] .default = [0, 1] ∧
      (default.apply [proposal 0 0, proposal 1 0, proposal 2 1]).2.generation.toNat = 0 + 2 :=
  ⟨by decide +kernel,
    (proposals_serialized [proposal 0 0, proposal 1 0, proposal 2 1] .default
      (by decide +kernel)).2.2⟩

/-- A state machine whose generation is the last one that the counter can hold. -/
def exhausted : StateMachineData :=
  { default with
    clusterState := { ClusterState.default with schedulingGeneration := 0xFFFFFFFFFFFFFFFF } }

/-- The counter runs over, so an accepted proposal can make the generation decrease. -/
theorem generation_decreases_exhausted :
    ¬ ∀ (inputs : List (Readings × Entry)) (data : StateMachineData),
      data.generation.toNat ≤ (data.apply inputs).2.generation.toNat := by
  -- The last generation is followed by zero.
  intro grows
  exact absurd (grows [proposal 0 0xFFFFFFFFFFFFFFFF] exhausted) (by decide +kernel)

end StateMachineData

end Tatara.Cluster
