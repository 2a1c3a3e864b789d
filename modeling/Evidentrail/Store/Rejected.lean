import Evidentrail.Store.Nonces
import Evidentrail.Store.Recovery

/-!
# Batches that are refused

A batch is checked in two places. What is checked before the reservation of
its nonces leaves nothing behind. The chain to the segment before and the
distinctness of the event ids are checked after it, and a batch that fails
there keeps the one slot for pending nonces occupied.
-/

namespace Evidentrail

open Rust Std Slice Attempt KeyAuthorityV2 AccountableV2

namespace RepositoryV2

variable {A : Type} [KeyAuthorityV2 A] {r : ResultId} {input : BatchCommitInputV2}
  {s s' : RepositoryV2 A} {d : ResultDirectoryV2} {α β : Type}

theorem operation_of_new {ordinal : Nat} {operation : OperationIdV1}
    {events : List DurableEventInputV2} {semanticReceipts operationalReceipts : List (List UInt8)}
    (h : BatchCommitInputV2.new ordinal operation events semanticReceipts operationalReceipts =
      .ok input) : input.operation.isZero = false := by
  unfold BatchCommitInputV2.new at h
  dsimp only at h
  split at h
  · cases h
  · rename_i hvalid
    cases h
    push Not at hvalid
    simpa using hvalid.1

section Refused

variable [Sha256]

/-! ## What a refused batch leaves -/

/-- No fault is injected. -/
def noFaults : DurableRepositoryFaultPointV2 → Bool := fun _ => false

/-- The record and the staging directory are as before, and every batch with
this ordinal that could be committed still can. -/
structure Unwedged (r : ResultId) (ordinal : Nat) (s s' : RepositoryV2 A) : Prop where
  record : snapshot s'.authority r = snapshot s.authority r
  staging : s'.staging[r]? = s.staging[r]?
  others : ∀ other : BatchCommitInputV2, other.ordinal = ordinal →
    (commitBatch noFaults r other s).1.isOk → (commitBatch noFaults r other s').1.isOk

/-- A refusal of this batch leaves the result as it was. -/
def RefusedCleanly (r : ResultId) (input : BatchCommitInputV2) (s : RepositoryV2 A) : Prop :=
  ∀ e s', commitBatch noFaults r input s = (.error e, s') → Unwedged r input.ordinal s s'

/-- The batch passes the checks before its reservation: it is the next one of a
directory without two segments of one ordinal, and its nonces are reserved. -/
def ReservesAnew (r : ResultId) (input : BatchCommitInputV2) (s : RepositoryV2 A)
    (d : ResultDirectoryV2) : Prop :=
  s.staging[r]? = some d ∧ d.resultLock = true ∧ input.ordinal = d.batches.length ∧
    input.ordinal + 1 < u64Bound ∧ d.segmentOrdinals.Nodup ∧
    ∃ authority reservation, reserveNonceRange s.authority r input.operation
      (digestBatch input) input.frameCount = .ok (authority, reservation) ∧
      snapshot authority r ≠ snapshot s.authority r

/-- The checks after the reservation: a segment to chain to, and no event id
twice. -/
def Writable (input : BatchCommitInputV2) (d : ResultDirectoryV2) : Prop :=
  d.segmentOrdinals ≠ [] ∧ (input.events.map DurableEventInputV2.eventId).Nodup

variable [AccountableV2 A] {record : ResultAuthorityRecordV2} {acc : AccountV2}

/-- After a reservation the account is there, and its completion is accepted. -/
theorem completes_after_reserve {authority : A} {operation : OperationIdV1}
    {digest : LifecycleDigestV1} {count : Nat} {reservation : NonceReservationV1}
    (hacc : account s.authority r = some acc) (hregular : acc.Regular)
    (hfree : acc.record.hasPendingNonceReservation = false)
    (h : reserveNonceRange s.authority r operation digest count = .ok (authority, reservation)) :
    ∃ acc', account authority r = some acc' ∧ ∃ authority' transition,
      completeNonceReservation authority r operation digest = .ok (authority', transition) := by
  obtain ⟨acc', hacc', hreserves⟩ := reserve_ok hacc hregular h
  refine ⟨acc', hacc', ?_⟩
  cases hreserves with
  | again hrecalled =>
      exact ⟨authority, _, complete_idle hacc' ⟨_, _, hrecalled⟩ hfree⟩
  | fresh _ hreserve hrecalled _ =>
      have hmutates := complete_recalled hacc' ⟨_, _, hrecalled⟩
      obtain ⟨hoperation, _, _, _, rfl⟩ := AccountV2.reserved_fresh hfree hreserve
      rw [ResultAuthorityRecordV2.completePendingNonceRange_pending hoperation rfl rfl] at hmutates
      obtain ⟨authority', hcall, _⟩ := hmutates
      exact ⟨authority', _, hcall⟩

/-- A reservation that leaves the record as it was leaves the authority too. -/
theorem reserve_unchanged {authority : A} {operation : OperationIdV1}
    {digest : LifecycleDigestV1} {count : Nat} {reservation : NonceReservationV1}
    (hacc : account s.authority r = some acc) (hregular : acc.Regular)
    (h : reserveNonceRange s.authority r operation digest count = .ok (authority, reservation))
    (hsame : snapshot authority r = snapshot s.authority r) : authority = s.authority := by
  obtain ⟨acc', hacc', hreserves⟩ := reserve_ok hacc hregular h
  cases hreserves with
  | again hrecalled =>
      rw [reserve_recalled hacc hregular hrecalled] at h
      cases h
      rfl
  | fresh hfree hreserve _ _ =>
      have hbefore := snapshot_eq_ok.mpr ⟨acc, hacc, rfl⟩
      have hafter := snapshot_eq_ok.mpr ⟨_, hacc', rfl⟩
      rw [hsame, hbefore] at hafter
      obtain ⟨_, hcount, _, _, rfl⟩ := AccountV2.reserved_fresh hfree hreserve
      have hhigh := congrArg ResultAuthorityRecordV2.nonceHighWater (Except.ok.inj hafter)
      dsimp only at hhigh
      omega

/-- A refused batch leaves everything as it was, or it was refused after its
reservation. -/
theorem commitBatch_refused (hoperation : input.operation.isZero = false)
    (hacc : account s.authority r = some acc) (hregular : acc.Regular)
    (hfree : acc.record.hasPendingNonceReservation = false) :
    Returns (fun result s' => ∀ e, result = .error e →
      s' = s ∨ ∃ d, ReservesAnew r input s d ∧ ¬Writable input d)
      (commitBatch noFaults r input) s := by
  unfold commitBatch
  refine returns_read ?_
  refine returns_lockIn (fun _ _ => .inl rfl) fun d hstaging hlock => ?_
  refine returns_snapshotOf (fun _ _ _ _ => .inl rfl) fun record _ => ?_
  refine returns_require (fun _ _ _ => .inl rfl) fun _ => ?_
  refine returns_lift_bind (fun _ _ _ _ => .inl rfl) fun next hnext => ?_
  cases hsegment : d.batches[input.ordinal]? with
  | some segment =>
      refine returns_authorityCall_bind (fun _ _ _ _ => .inl rfl) fun authority _ hcall => ?_
      have hsame : authority = s.authority := by
        by_cases hrecalled : acc.Recalls input.operation (digestBatch input)
        · rw [complete_idle hacc hrecalled hfree] at hcall
          cases hcall
          rfl
        · rw [complete_unrecalled hacc hoperation hrecalled] at hcall
          cases hcall
      subst hsame
      refine returns_keyOf hacc ?_
      refine returns_lift_bind (fun _ _ _ _ => .inl rfl) fun stored _ => ?_
      refine returns_require (fun _ _ _ => .inl rfl) fun _ => ?_
      refine returns_lift_bind (fun _ _ _ _ => .inl rfl) fun _ _ => ?_
      exact returns_pure fun _ _ => .inl rfl
  | none =>
      refine returns_require (fun _ _ _ => .inl rfl) fun hordinal => ?_
      refine returns_lift_bind (fun _ _ _ _ => .inl rfl) fun chained hchained => ?_
      refine returns_authorityCall_bind (fun _ _ _ _ => .inl rfl)
        fun authority reservation hcall => ?_
      have hlate : ¬Writable input d → ({ s with authority } : RepositoryV2 A) = s ∨
          ∃ d, ReservesAnew r input s d ∧ ¬Writable input d := by
        intro hwritable
        by_cases hsame : snapshot authority r = snapshot s.authority r
        · rw [reserve_unchanged hacc hregular hcall hsame]
          exact .inl rfl
        · unfold ResultDirectoryV2.lastChainPosition at hchained
          refine .inr ⟨d, ⟨hstaging, hlock, by simpa using hordinal,
            (checkedAdd_eq_some.mp (okOr_eq_ok.mp hnext)).1, ?_, authority, reservation, hcall,
            hsame⟩, hwritable⟩
          by_contra hnodup
          rw [if_neg hnodup] at hchained
          cases hchained
      refine returns_require (fun hfalse _ _ => hlate fun hwritable => ?_) fun htrue => ?_
      · unfold ResultDirectoryV2.lastChainPosition at hchained
        split at hchained
        · cases hchained
          exact absurd hwritable.1 (by simpa using hfalse)
        · cases hchained
      obtain ⟨acc', hacc', authority', transition, hcomplete⟩ :=
        completes_after_reserve hacc hregular hfree hcall
      refine returns_keyOf hacc' ?_
      refine returns_require (fun hfalse _ _ => hlate fun hwritable => ?_) fun _ => ?_
      · exact absurd hwritable.2 (by simpa using hfalse)
      refine returns_update ?_
      refine returns_authorityCall_bind (fun e herror => ?_) fun _ _ _ => ?_
      · cases hcomplete.symm.trans herror
      · exact returns_pure fun e h => by cases h

theorem commitBatch_wedges (hacc : account s.authority r = some acc)
    (hstate : acc.record.state = .opened) (hregular : acc.Regular)
    (hfree : acc.record.hasPendingNonceReservation = false) (hd : ReservesAnew r input s d)
    (hwritable : ¬Writable input d) :
    ∃ s', commitBatch noFaults r input s = (.error .decodeFailed, s') ∧
      snapshot s'.authority r ≠ snapshot s.authority r := by
  obtain ⟨hstaging, hlock, hordinal, hfits, hnodup, authority, reservation, hcall, hchanged⟩ := hd
  refine ⟨{ s with authority }, ?_, hchanged⟩
  obtain ⟨acc', hacc', _⟩ := completes_after_reserve hacc hregular hfree hcall
  have hnone : d.batches[input.ordinal]? = none :=
    List.getElem?_eq_none (Nat.le_of_eq hordinal.symm)
  have hposition : d.lastChainPosition = .ok (d.segmentOrdinals ≠ []) := if_pos hnodup
  suffices h : Returns (fun result s' => result = .error .decodeFailed ∧
      s' = { s with authority }) (commitBatch noFaults r input) s from Prod.ext h.1 h.2
  unfold commitBatch
  refine returns_read ?_
  rw [hstaging]
  refine returns_of_ok (lockIn_ok hlock) ?_
  refine returns_of_ok (snapshotOf_ok hacc) ?_
  refine returns_of_ok (require_true (by simp [hstate])) ?_
  refine returns_of_ok (lift_ok (by rw [checkedAdd_of_lt hfits]; rfl)) ?_
  rw [hnone]
  refine returns_of_ok (require_true (by simp [hordinal])) ?_
  refine returns_of_ok (lift_ok hposition) ?_
  refine returns_of_ok (authorityCall_ok hcall) ?_
  refine returns_require (fun _ => ⟨rfl, rfl⟩) fun hchained => ?_
  refine returns_keyOf hacc' ?_
  refine returns_require (fun _ => ⟨rfl, rfl⟩) fun hdistinct => ?_
  exact absurd ⟨by simpa using hchained, by simpa using hdistinct⟩ hwritable

/-- From an authority that has no account yet, all accounts stay regular. -/
theorem allRegular_run [SnapshotFormatV2] {authority : A}
    (hnone : ∀ r, account authority r = none) (before : List CommandV2) :
    AllRegular (run ({ authority } : RepositoryV2 A) before).authority := by
  refine run_stable allRegular_stable allRegular_survives before ?_
  intro r acc hacc
  cases (hnone r).symm.trans hacc

/-- In every state that a run reaches, the batches that can be refused only
cleanly are those that no check after the reservation refuses. -/
theorem refusedCleanly_iff [SnapshotFormatV2] {authority : A}
    (hnone : ∀ r, account authority r = none) (before : List CommandV2)
    (hs : s = run { authority } before) (hrecord : snapshot s.authority r = .ok record)
    (hstate : record.state = .opened) (hfree : record.hasPendingNonceReservation = false)
    (hoperation : input.operation.isZero = false) :
    RefusedCleanly r input s ↔ ∀ d, ReservesAnew r input s d → Writable input d := by
  obtain ⟨acc, hacc, rfl⟩ := snapshot_eq_ok.mp hrecord
  have hregular : acc.Regular := by
    rw [hs] at hacc
    exact allRegular_run hnone before r acc hacc
  constructor
  · intro hclean d hd
    by_contra hwritable
    obtain ⟨s', hrun, hchanged⟩ :=
      commitBatch_wedges hacc hstate hregular hfree hd hwritable
    exact hchanged (hclean _ _ hrun).record
  · intro hcondition e s' hrun
    rcases (commitBatch_refused hoperation hacc hregular hfree).of_run hrun e rfl with
      rfl | ⟨d, hd, hwritable⟩
    · exact ⟨rfl, rfl, fun _ _ h => h⟩
    · exact absurd (hcondition d hd) hwritable

/-- With either authority, a refused batch leaves an open result without a
pending reservation as it was, exactly when it was not refused for a missing
segment or a repeated event id after its nonces were reserved. -/
theorem refused_batch_leaves_result [SnapshotFormatV2] (capacity : Nat) (r : ResultId)
    (before : List CommandV2) (record : ResultAuthorityRecordV2)
    (hstate : record.state = .opened) (hfree : record.hasPendingNonceReservation = false)
    (ordinal : Nat) (operation : OperationIdV1) (events : List DurableEventInputV2)
    (semanticReceipts operationalReceipts : List (List UInt8)) (input : BatchCommitInputV2)
    (hinput : BatchCommitInputV2.new ordinal operation events semanticReceipts
      operationalReceipts = .ok input) :
    (∀ (authority : ProcessKeyAuthorityV2) (s : RepositoryV2 ProcessKeyAuthorityV2),
      ProcessKeyAuthorityV2.new capacity = .ok authority → s = run { authority } before →
      snapshot s.authority r = .ok record →
      (RefusedCleanly r input s ↔ ∀ d, ReservesAnew r input s d → Writable input d)) ∧
    (∀ (authority : MacOsKeychainAuthorityV2) (s : RepositoryV2 MacOsKeychainAuthorityV2),
      MacOsKeychainAuthorityV2.new capacity = .ok authority → s = run { authority } before →
      snapshot s.authority r = .ok record →
      (RefusedCleanly r input s ↔ ∀ d, ReservesAnew r input s d → Writable input d)) := by
  have hoperation := operation_of_new hinput
  refine ⟨?_, ?_⟩
  · intro authority s hnew hs hrecord
    refine refusedCleanly_iff (fun q => ?_) before hs hrecord hstate hfree hoperation
    unfold ProcessKeyAuthorityV2.new at hnew
    split at hnew
    · cases hnew
    · cases hnew
      rfl
  · intro authority s hnew hs hrecord
    refine refusedCleanly_iff (fun q => ?_) before hs hrecord hstate hfree hoperation
    unfold MacOsKeychainAuthorityV2.new at hnew
    split at hnew
    · cases hnew
    · cases hnew
      rfl

end Refused

/-! ## One refused batch -/

/-- A batch with one event id twice. -/
def repeatedBatch : BatchCommitInputV2 := ⟨0, .repeated 6, [sampleEvent, sampleEvent], [], []⟩

def sampleBatch : BatchCommitInputV2 := ⟨0, .repeated 2, [sampleEvent], [], []⟩

/-- What is known of a result before its first batch. -/
def fresh {A : Type} [KeyAuthorityV2 A] (s : RepositoryV2 A) : Bool :=
  match snapshot s.authority sampleResult, s.staging[sampleResult]? with
  | .ok record, some d => record.state = .opened && !record.hasPendingNonceReservation &&
      d.segmentOrdinals = [0]
  | _, _ => false

theorem begunRun_outcome :
    letI := fips180
    letI := plainFormat
    (emptyRoot.run [sampleBegin]).fresh = true ∧ (emptyKeychain.run [sampleBegin]).fresh = true ∧
      (commitBatch noFaults sampleResult repeatedBatch (emptyRoot.run [sampleBegin])).1 =
        .error .decodeFailed ∧
      (commitBatch noFaults sampleResult sampleBatch (emptyRoot.run [sampleBegin])).1.isOk ∧
      (commitBatch noFaults sampleResult sampleBatch (commitBatch noFaults sampleResult
        repeatedBatch (emptyRoot.run [sampleBegin])).2).1 = .error .operationConflict := by
  rw [fips180_eq]
  decide +kernel

/-- A batch with a repeated event id is refused and takes the batch's place
with it. -/
theorem repeated_event_wedges_result :
    letI := fips180
    letI := plainFormat
    let s := emptyRoot.run [sampleBegin]
    let s' := (commitBatch noFaults sampleResult repeatedBatch s).2
    BatchCommitInputV2.new 0 (.repeated 6) [sampleEvent, sampleEvent] [] [] =
        .ok repeatedBatch ∧
      s.fresh = true ∧
      (commitBatch noFaults sampleResult repeatedBatch s).1 = .error .decodeFailed ∧
      (commitBatch noFaults sampleResult sampleBatch s).1.isOk ∧
      (commitBatch noFaults sampleResult sampleBatch s').1 = .error .operationConflict := by
  obtain ⟨hfresh, _, hrefused, hcould, hcannot⟩ := begunRun_outcome
  exact ⟨rfl, hfresh, hrefused, hcould, hcannot⟩

/-- The event id twice again, but not as the next batch. -/
def skippedBatch : BatchCommitInputV2 := ⟨2, .repeated 6, [sampleEvent, sampleEvent], [], []⟩

/-- The next batch, under the operation id of the one before. -/
def reusedBatch : BatchCommitInputV2 := ⟨1, .repeated 2, [sampleEvent, sampleEvent], [], []⟩

def sampleAcquired : List CommandV2 :=
  [sampleBegin, .commitBatch noFaults sampleResult sampleBatch]

/-- The result is open without a pending reservation, and the batch is not the
next one or gets no nonces. -/
def refusesEarly {A : Type} [KeyAuthorityV2 A] [Sha256] (s : RepositoryV2 A)
    (input : BatchCommitInputV2) : Bool :=
  match snapshot s.authority sampleResult, s.staging[sampleResult]? with
  | .ok record, some d => record.state = .opened && !record.hasPendingNonceReservation &&
      (input.ordinal != d.batches.length || !(reserveNonceRange s.authority sampleResult
        input.operation (digestBatch input) input.frameCount).isOk)
  | _, _ => false

theorem refusesEarly_eq_true {A : Type} [KeyAuthorityV2 A] [Sha256] {s : RepositoryV2 A}
    {input : BatchCommitInputV2} (h : s.refusesEarly input = true) :
    ∃ record, snapshot s.authority sampleResult = .ok record ∧ record.state = .opened ∧
      record.hasPendingNonceReservation = false ∧ ∀ d, ¬ReservesAnew sampleResult input s d := by
  unfold refusesEarly at h
  split at h
  · rename_i record d hrecord hd
    simp only [Bool.and_eq_true, decide_eq_true_eq, Bool.not_eq_true', Bool.or_eq_true,
      bne_iff_ne] at h
    obtain ⟨⟨hstate, hfree⟩, hearly⟩ := h
    refine ⟨record, hrecord, hstate, hfree, ?_⟩
    rintro d' ⟨hd', _, hordinal, _, _, _, _, hreserved, _⟩
    cases hd.symm.trans hd'
    rcases hearly with hskipped | hrefused
    · exact hskipped hordinal
    · rw [hreserved] at hrefused
      cases hrefused
  · cases h

theorem sampleAcquired_outcome :
    letI := fips180
    letI := plainFormat
    let s := emptyRoot.run sampleAcquired
    let t := emptyKeychain.run sampleAcquired
    (s.refusesEarly skippedBatch = true ∧ s.refusesEarly reusedBatch = true ∧
      (commitBatch noFaults sampleResult skippedBatch s).1 = .error .batchOrdinalMismatch ∧
      (commitBatch noFaults sampleResult reusedBatch s).1 = .error .operationConflict) ∧
    t.refusesEarly skippedBatch = true ∧
      (commitBatch noFaults sampleResult skippedBatch t).1 = .error .batchOrdinalMismatch := by
  rw [fips180_eq]
  decide +kernel

/-- After the first batch, batches that repeat an event id are refused before their
nonces are reserved: one with either authority, one that only the process authority
knows the operation of. -/
theorem refused_batch_leaves_result_early :
    letI := fips180
    letI := plainFormat
    let s := emptyRoot.run sampleAcquired
    let t := emptyKeychain.run sampleAcquired
    ((commitBatch noFaults sampleResult skippedBatch s).1 = .error .batchOrdinalMismatch ∧
      RefusedCleanly sampleResult skippedBatch s ∧
      (commitBatch noFaults sampleResult reusedBatch s).1 = .error .operationConflict ∧
      RefusedCleanly sampleResult reusedBatch s) ∧
    (commitBatch noFaults sampleResult skippedBatch t).1 = .error .batchOrdinalMismatch ∧
      RefusedCleanly sampleResult skippedBatch t := by
  let := fips180
  let := plainFormat
  obtain ⟨⟨hskipped, hreused, hordinal, hconflict⟩, hskipped', hordinal'⟩ :=
    sampleAcquired_outcome
  refine ⟨⟨hordinal, ?_, hconflict, ?_⟩, hordinal', ?_⟩
  · obtain ⟨record, hrecord, hstate, hfree, hearly⟩ := refusesEarly_eq_true hskipped
    exact ((refused_batch_leaves_result 1 sampleResult sampleAcquired record hstate hfree 2
      (.repeated 6) [sampleEvent, sampleEvent] [] [] skippedBatch rfl).1 emptyRoot.authority _
      rfl rfl hrecord).mpr fun d hreserves => absurd hreserves (hearly d)
  · obtain ⟨record, hrecord, hstate, hfree, hearly⟩ := refusesEarly_eq_true hreused
    exact ((refused_batch_leaves_result 1 sampleResult sampleAcquired record hstate hfree 1
      (.repeated 2) [sampleEvent, sampleEvent] [] [] reusedBatch rfl).1 emptyRoot.authority _
      rfl rfl hrecord).mpr fun d hreserves => absurd hreserves (hearly d)
  · obtain ⟨record, hrecord, hstate, hfree, hearly⟩ := refusesEarly_eq_true hskipped'
    exact ((refused_batch_leaves_result 1 sampleResult sampleAcquired record hstate hfree 2
      (.repeated 6) [sampleEvent, sampleEvent] [] [] skippedBatch rfl).2 emptyKeychain.authority _
      rfl rfl hrecord).mpr fun d hreserves => absurd hreserves (hearly d)

end RepositoryV2

end Evidentrail
