import Tatara.Cluster.Recovery

/-! A replica that starts from a snapshot goes on as one that has applied the log. -/

namespace Tatara.Cluster

open Tatara.Rust Tatara.Domain

namespace StateMachineData

/-- After an entry a replica knows the place of the last one. -/
theorem lastAppliedLog_isSome {inputs : List (Readings × Entry)} (some_ : inputs ≠ [])
    (data : StateMachineData) : (data.apply inputs).2.lastAppliedLog.isSome = true := by
  -- The last entry has left its place.
  obtain ⟨front, ⟨readings, entry⟩, rfl⟩ := List.eq_nil_or_concat inputs |>.resolve_left some_
  simp [apply, Machine.run_append, applyEntry_lastAppliedLog]

variable [StateCodec]

/-- `StateMachine::install_snapshot` on a replica: what it answers, and what is held after it. -/
def install (data : StateMachineData) (snapshotMeta : SnapshotMeta) (bytes : StateCodec.Bytes) :
    Except StorageError Unit × StateMachineData :=
  -- The bytes are read before anything is written.
  match installSnapshot snapshotMeta bytes with
  | .error err => (.error err, data)
  | .ok newData => (.ok (), newData)

/-- The bytes of a snapshot are read as what they were written of. -/
def CodecRoundTrips : Prop :=
  ∀ data : StateMachineData, ∃ bytes,
    StateCodec.toVec data = .ok bytes ∧ StateCodec.fromSlice bytes = .ok data

/-- A snapshot of what a replica holds, taken in either of the two ways. -/
def Offers (data : StateMachineData) (snapshot : Snapshot) : Prop :=
  (∃ now, data.buildSnapshot now = .ok snapshot) ∨ data.getCurrentSnapshot = .ok (some snapshot)

/-- A snapshot names what it was taken of twice, in its metadata and in its bytes. -/
theorem snapshotAs_ok (roundTrips : CodecRoundTrips) (data : StateMachineData) (ending : String) :
    ∃ snapshot, data.snapshotAs ending = .ok snapshot ∧
      snapshot.meta.lastLogId = data.lastAppliedLog ∧
      snapshot.meta.lastMembership = data.lastMembership ∧
      StateCodec.fromSlice snapshot.snapshot = .ok data := by
  -- Writing succeeds, and what is written is read back.
  obtain ⟨bytes, written, read⟩ := roundTrips data
  unfold snapshotAs
  rw [written]
  exact ⟨_, rfl, rfl, rfl, read⟩

/-- A snapshot that is taken in one of the two ways was taken of the whole state. -/
theorem Offers.eq_snapshotAs {data : StateMachineData} {snapshot : Snapshot}
    (offered : data.Offers snapshot) : ∃ ending, data.snapshotAs ending = .ok snapshot := by
  -- The two ways differ in the ending of the snapshot's name.
  rcases offered with ⟨now, built⟩ | current
  · exact ⟨_, built⟩
  · unfold getCurrentSnapshot at current
    split at current
    · cases current
    · cases taken : data.snapshotAs "snap" with
      | error err =>
        rw [taken] at current
        cases current
      | ok found =>
        rw [taken] at current
        cases current
        exact ⟨_, taken⟩

/-- Installing a snapshot leaves a replica with what the snapshot was taken of. -/
theorem install_offered (roundTrips : CodecRoundTrips) {data : StateMachineData}
    {snapshot : Snapshot} (offered : data.Offers snapshot) (receiver : StateMachineData) :
    receiver.install snapshot.meta snapshot.snapshot = (.ok (), data) := by
  obtain ⟨ending, taken⟩ := offered.eq_snapshotAs
  obtain ⟨same, taken', logId, membership, read⟩ := snapshotAs_ok roundTrips data ending
  obtain rfl : snapshot = same := Except.ok.inj (taken.symm.trans taken')
  -- The metadata overwrite what was read by the same values.
  simp only [install, installSnapshot, read, logId, membership]

/-- A replica that installs a snapshot of the first part of a log and applies the rest holds what a
replica holds that has applied the whole log, whatever it held before; and what cannot be read as a
snapshot changes nothing. -/
theorem install_apply_eq_apply (roundTrips : CodecRoundTrips) (start : StateMachineData)
    (front back : List (Readings × Entry)) (receiver : StateMachineData) :
    (∀ now, ∃ snapshot, (start.apply front).2.buildSnapshot now = .ok snapshot) ∧
      (front ≠ [] → ∃ snapshot, (start.apply front).2.getCurrentSnapshot = .ok (some snapshot)) ∧
      (∀ snapshot, (start.apply front).2.Offers snapshot →
        (receiver.install snapshot.meta snapshot.snapshot).1 = .ok () ∧
          ((receiver.install snapshot.meta snapshot.snapshot).2.apply back).2 =
            (start.apply (front ++ back)).2) ∧
      ∀ snapshotMeta bytes err, StateCodec.fromSlice bytes = .error err →
        receiver.install snapshotMeta bytes = (.error (.readSnapshot err), receiver) := by
  refine ⟨fun now => ?_, fun some_ => ?_, fun snapshot offered => ?_, fun _ bytes err broken => ?_⟩
  · obtain ⟨snapshot, taken, -⟩ := snapshotAs_ok roundTrips (start.apply front).2 _
    exact ⟨snapshot, taken⟩
  · obtain ⟨snapshot, taken, -⟩ := snapshotAs_ok roundTrips (start.apply front).2 "snap"
    have applied := lastAppliedLog_isSome some_ start
    refine ⟨snapshot, ?_⟩
    simp [getCurrentSnapshot, Option.isNone_iff_eq_none, Option.ne_none_iff_isSome.mpr applied,
      taken, Except.map]
  · -- The receiver is where the first part of the log ends, and the rest leads on from there.
    rw [install_offered roundTrips offered]
    simp only [apply, Machine.run_append, and_self]
  · simp only [install, installSnapshot, broken]

end StateMachineData

/-- The entry after the first, which asks for nothing. -/
def blankEntry : Entry := ⟨⟨⟨1, 1⟩, 1⟩, .blank⟩

/-- A replica takes over from another one that has applied the first entry of a log. -/
theorem install_apply_eq_apply_firstEntry :
    (∃ snapshot, @StateMachineData.getCurrentSnapshot plainCodec
        (StateMachineData.default.apply [(.still ⟨0⟩, firstEntry)]).2 = .ok (some snapshot)) ∧
      ∀ snapshot, @StateMachineData.Offers plainCodec
        (StateMachineData.default.apply [(.still ⟨0⟩, firstEntry)]).2 snapshot →
      ((@StateMachineData.install plainCodec .default (@Snapshot.meta plainCodec snapshot)
          (@Snapshot.snapshot plainCodec snapshot)).2.apply [(.still ⟨0⟩, blankEntry)]).2 =
        (StateMachineData.default.apply
          [(.still ⟨0⟩, firstEntry), (.still ⟨0⟩, blankEntry)]).2 := by
  have transfer := @StateMachineData.install_apply_eq_apply plainCodec
    (fun data => ⟨data, rfl, rfl⟩) .default [(.still ⟨0⟩, firstEntry)]
    [(.still ⟨0⟩, blankEntry)] .default
  -- Here the first part is not empty, and the codec keeps the state as it is.
  exact ⟨transfer.2.1 (by simp), fun snapshot offered => (transfer.2.2.1 snapshot offered).2⟩

end Tatara.Cluster
