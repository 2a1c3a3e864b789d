import Evidentrail.Ingest.KubernetesReads

/-!
# Completed members and what the sink acknowledged

A record of a response was delivered when an envelope under its native
identity, with its bytes, is among the envelopes the sink acknowledged. A
member counts as completed on a second look alone, so the count is right
exactly when every member found unchanged fitted the caps and had its
records in the part of the canonical order that the sink acknowledged.
-/

namespace Evidentrail

open Rust Encoding Std

/-! ## Envelopes of the records held -/

/-- The envelope of a record held: its identity and its bytes. -/
def IsEnvelopeOf (pending : PendingKubernetesRecord) (envelope : RawEnvelopeV1) : Prop :=
  envelope.nativeEventId.map OpaqueBytes.asBytes = some pending.nativeIdentity ∧
    envelope.record = .framed pending.record.payload pending.record.terminator

theorem newOpaque_eq_ok {kind : OpaqueKind} {bytes : List UInt8} {value : OpaqueBytes kind}
    (h : newOpaque kind bytes = .ok value) : value.asBytes = bytes := by
  unfold newOpaque at h
  split at h
  · cases h
  · split at h
    · obtain rfl := Except.ok.inj h
      rfl
    · cases h

section Run

variable [Sha256]

theorem kubernetesEnvelope_eq_ok {context : ExecutionContext} {pending : PendingKubernetesRecord}
    {member : SourceMember} {acquisitionSequence laneSequence : Nat} {envelope : RawEnvelopeV1}
    (h : kubernetesEnvelope context pending member acquisitionSequence laneSequence =
      .ok envelope) : IsEnvelopeOf pending envelope := by
  obtain ⟨timestamps, -, h⟩ := except_bind_eq_ok.mp h
  obtain ⟨nativeEventId, hnative, h⟩ := except_bind_eq_ok.mp h
  obtain ⟨cursor, -, h⟩ := except_bind_eq_ok.mp h
  obtain rfl := Except.ok.inj h
  exact ⟨congrArg some (newOpaque_eq_ok hnative), rfl⟩

/-- One envelope for each record, in their order. -/
theorem kubernetesEnvelopes_eq_ok {context : ExecutionContext} :
    ∀ {list : List PendingKubernetesRecord} {position : Nat} {lanes : ExtTreeMap LaneKey Nat}
      {envelopes : List RawEnvelopeV1},
      kubernetesEnvelopes context position lanes list = .ok envelopes →
      List.Forall₂ IsEnvelopeOf list envelopes
  | [], _, _, _, h => by
      obtain rfl := Except.ok.inj h
      exact .nil
  | pending :: rest, position, lanes, envelopes, h => by
      rw [kubernetesEnvelopes] at h
      obtain ⟨sequence, -, h⟩ := except_bind_eq_ok.mp h
      obtain ⟨member, -, h⟩ := except_bind_eq_ok.mp h
      obtain ⟨envelope, henvelope, h⟩ := except_bind_eq_ok.mp h
      obtain ⟨next, -, h⟩ := except_bind_eq_ok.mp h
      obtain ⟨tail, htail, h⟩ := except_bind_eq_ok.mp h
      obtain rfl := Except.ok.inj h
      exact .cons (kubernetesEnvelope_eq_ok henvelope) (kubernetesEnvelopes_eq_ok htail)

/-! ## Offering the batches -/

/-- How many of the envelopes the sink acknowledges, offered chunk by chunk
until it stops. -/
def acknowledgedOf (context : ExecutionContext) (sink : EnvelopeBatchSinkV1) :
    Nat → List (List RawEnvelopeV1) → Nat
  | _, [] => 0
  | ordinal, chunk :: rest =>
      match batchOf context ordinal chunk with
      | .error _ => 0
      | .ok batch =>
          (sink.answer batch).1 +
            if (sink.answer batch).2 then acknowledgedOf context sink (ordinal + 1) rest else 0

theorem batchOf_eq_ok {context : ExecutionContext} {ordinal : Nat} {chunk : List RawEnvelopeV1}
    {batch : EnvelopeBatchV1} (h : batchOf context ordinal chunk = .ok batch) :
    batch.envelopes.toList = chunk := by
  unfold batchOf at h
  split at h
  · rename_i hroom
    cases hnew : EnvelopeBatchV1.new context (UInt64.ofNat ordinal) ⟨chunk, hroom⟩ with
    | error fault => rw [hnew] at h; cases h
    | ok made =>
        rw [hnew] at h
        obtain rfl := Except.ok.inj h
        obtain ⟨-, -, rfl⟩ := EnvelopeBatchV1.new_eq_ok hnew
        rfl
  · cases h

/-- The session counts what the sink acknowledged, and offering changes
nothing of the count of members. -/
theorem offerBatches_eq_ok {context : ExecutionContext} {sink : EnvelopeBatchSinkV1} :
    ∀ {list : List (List RawEnvelopeV1)} {ordinal : Nat} {session session' : ExecutionSession}
      {s s' : KubernetesState}, session.HasRoom list.flatten →
      offerBatches context sink ordinal list session s = .ok (session', s') →
      session'.acknowledgedRecords =
        session.acknowledgedRecords + acknowledgedOf context sink ordinal list ∧
        s'.completedMembers = s.completedMembers ∧ s'.attemptedMembers = s.attemptedMembers
  | [], _, session, session', s, s', _, h => by
      obtain ⟨rfl, rfl⟩ := Prod.mk.injEq .. |>.mp (Except.ok.inj h)
      exact ⟨rfl, rfl, rfl⟩
  | chunk :: rest, ordinal, session, session', s, s', hroom, h => by
      rw [offerBatches] at h
      obtain ⟨batch, hbatch, h⟩ := except_bind_eq_ok.mp h
      obtain ⟨next, hnext, h⟩ := except_bind_eq_ok.mp h
      obtain ⟨-, rfl⟩ := checkedAdd_eq_some.mp (okOr_eq_ok.mp hnext)
      rw [List.flatten_cons, ← batchOf_eq_ok hbatch] at hroom
      obtain ⟨mid, status, haccept, hcount, hstatus, hrest⟩ :=
        @ExecutionSession.acceptBatch_eq _ sink _ _ hroom
      simp only [haccept] at h
      rw [acknowledgedOf, hbatch]
      simp only
      cases status with
      | acknowledged =>
          have hall := hstatus.mp rfl
          obtain ⟨htail, hcompleted, hattempted⟩ := offerBatches_eq_ok (hrest hall) h
          refine ⟨?_, hcompleted, hattempted⟩
          rw [htail, hcount, if_pos hall]
          omega
      | sinkStopped =>
          obtain ⟨rfl, rfl⟩ := Prod.mk.injEq .. |>.mp (Except.ok.inj h)
          have hnot : ¬ (sink.answer batch).2 = true := fun hall => by cases hstatus.mpr hall
          exact ⟨by rw [hcount, if_neg hnot]; rfl, rfl, rfl⟩
      | adapterStopped =>
          obtain ⟨rfl, rfl⟩ := Prod.mk.injEq .. |>.mp (Except.ok.inj h)
          have hnot : ¬ (sink.answer batch).2 = true := fun hall => by cases hstatus.mpr hall
          exact ⟨by rw [hcount, if_neg hnot]; rfl, rfl, rfl⟩

/-! ## What a run delivers -/

/-- The responses a run received. -/
def runReads (plan : KubernetesPlanV1) (transport : KubernetesTransportV1)
    (isCancelled : Nat → Bool) : List KubernetesRead :=
  KubernetesState.memberReads ⟨plan.caps, transport, isCancelled⟩ plan.members.toList {}

/-- The records held, in canonical order. -/
def runOrder (plan : KubernetesPlanV1) (transport : KubernetesTransportV1)
    (isCancelled : Nat → Bool) : List PendingKubernetesRecord :=
  canonicalOrder ((runReads plan transport isCancelled).flatMap (KubernetesRead.kept plan.caps))

def runEnvelopes (plan : KubernetesPlanV1) (transport : KubernetesTransportV1)
    (context : ExecutionContext) (isCancelled : Nat → Bool) : List RawEnvelopeV1 :=
  ((kubernetesEnvelopes context 0 ∅ (runOrder plan transport isCancelled)).toOption).getD []

/-- How many of the envelopes of a run the sink acknowledges. -/
def runAcknowledges (plan : KubernetesPlanV1) (transport : KubernetesTransportV1)
    (context : ExecutionContext) (sink : EnvelopeBatchSinkV1) (isCancelled : Nat → Bool) : Nat :=
  acknowledgedOf context sink 0
    (chunks maxEnvelopesPerBatchV1 (runEnvelopes plan transport context isCancelled))

/-- The envelopes the sink acknowledged. -/
def acknowledgedEnvelopes (plan : KubernetesPlanV1) (transport : KubernetesTransportV1)
    (context : ExecutionContext) (sink : EnvelopeBatchSinkV1) (isCancelled : Nat → Bool) :
    List RawEnvelopeV1 :=
  (runEnvelopes plan transport context isCancelled).take
    (runAcknowledges plan transport context sink isCancelled)

/-- The record was acknowledged, or is an exact duplicate of one that was. -/
def isDelivered (acknowledged : List RawEnvelopeV1) (member : KubernetesContainerInstanceV1)
    (record : KubernetesLogRecordV1) (responseOrdinal : Nat) : Bool :=
  acknowledged.any fun envelope =>
    envelope.nativeEventId.map OpaqueBytes.asBytes =
        some (kubernetesNativeIdentity member record responseOrdinal) ∧
      envelope.record.exactBytes = record.exactBytes

/-- Every record of the response was delivered and the second look matched. -/
def KubernetesRead.toEnd (transport : KubernetesTransportV1)
    (acknowledged : List RawEnvelopeV1) (read : KubernetesRead) : Bool :=
  transport.unchanged read.member &&
    read.records.zipIdx.all fun record => isDelivered acknowledged read.member record.1 record.2

/-- The planned members that were read to their end. -/
def membersReadToEnd (plan : KubernetesPlanV1) (transport : KubernetesTransportV1)
    (context : ExecutionContext) (sink : EnvelopeBatchSinkV1) (isCancelled : Nat → Bool) : Nat :=
  plan.members.toList.countP fun member =>
    (runReads plan transport isCancelled).any fun read => read.member = member &&
      read.toEnd transport (acknowledgedEnvelopes plan transport context sink isCancelled)

omit [Sha256] in
theorem envelopeBytes_eq {list : List PendingKubernetesRecord} {envelopes : List RawEnvelopeV1}
    (h : List.Forall₂ IsEnvelopeOf list envelopes) :
    envelopeBytes envelopes = pendingBytes list := by
  induction h with
  | nil => rfl
  | cons hhead _ ih =>
      simp only [envelopeBytes, pendingBytes, List.map_cons, List.sum_cons, hhead.2] at ih ⊢
      rw [ih]
      rfl

omit [Sha256] in
theorem held_start (caps : KubernetesCapsV1) : KubernetesState.Held caps {} :=
  ⟨fun id bytes h => by simp at h, by simp, rfl, Nat.zero_le _, Nat.zero_le _⟩

/-- What a run that returns did. -/
theorem executeBatches_eq_ok {plan : KubernetesPlanV1} {transport : KubernetesTransportV1}
    {context : ExecutionContext} {sink : EnvelopeBatchSinkV1} {isCancelled : Nat → Bool}
    {completion : FetchCompletion}
    (h : executeBatches plan transport context sink isCancelled = .ok completion) :
    List.Forall₂ IsEnvelopeOf (runOrder plan transport isCancelled)
        (runEnvelopes plan transport context isCancelled) ∧
      completion.members.completed = (runReads plan transport isCancelled).countP
        (fun read => transport.unchanged read.member) ∧
      completion.acknowledged.records =
        runAcknowledges plan transport context sink isCancelled ∧
      ((runReads plan transport isCancelled).map KubernetesRead.member).Sublist
        plan.members.toList ∧
      ∀ read ∈ runReads plan transport isCancelled, read.heldRecords ≤ plan.caps.maxRecords ∧
        read.heldBytes ≤ plan.caps.maxSourceBytes := by
  unfold executeBatches at h
  simp only at h
  split at h
  · cases h
  obtain ⟨s, hs, h⟩ := except_bind_eq_ok.mp h
  obtain ⟨envelopes, henvelopes, h⟩ := except_bind_eq_ok.mp h
  obtain ⟨⟨session, s'⟩, hoffer, h⟩ := except_bind_eq_ok.mp h
  have hreads := KubernetesState.readMembers_eq_ok (held_start plan.caps) plan.nodup
    (by simp) hs
  have hpending : s.pending = (runReads plan transport isCancelled).flatMap
      (KubernetesRead.kept plan.caps) := by
    rw [hreads.pending]
    rfl
  have horder : canonicalOrder s.pending = runOrder plan transport isCancelled := by
    rw [hpending]
    rfl
  have hrun : runEnvelopes plan transport context isCancelled = envelopes := by
    rw [runEnvelopes, ← horder, henvelopes]
    rfl
  have hforall := kubernetesEnvelopes_eq_ok henvelopes
  have hperm : (canonicalOrder s.pending).Perm s.pending := List.perm_insertionSort _ _
  have hroom : ExecutionSession.HasRoom {} (chunks maxEnvelopesPerBatchV1 envelopes).flatten := by
    rw [flatten_chunks (by decide)]
    have hbytes : envelopeBytes envelopes = s.totalPendingBytes := by
      rw [envelopeBytes_eq hforall, hreads.held.bytes]
      exact (hperm.map _).sum_nat
    have hlength : envelopes.length = s.pending.length := by
      rw [← hforall.length_eq, hperm.length_eq]
    have hrecords := hreads.held.records_le
    have hsource := hreads.held.bytes_le
    have hsafe : jsonSafeIntegerMax < u64Bound := by decide
    have hcaps := plan.caps.safe
    refine ⟨?_, ?_, ?_⟩ <;> simp only [Nat.zero_add, hbytes, hlength] at * <;> omega
  obtain ⟨hcount, hcompleted, -⟩ := offerBatches_eq_ok hroom hoffer
  unfold kubernetesCompletion at h
  simp only at h
  cases hnew : FetchCompletion.new context.fetchIdentity _ session.acknowledged _ _ _ _ _ _ _ with
  | error fault => rw [hnew] at h; cases h
  | ok made =>
      rw [hnew] at h
      obtain rfl := Except.ok.inj h
      obtain ⟨_, _, hacknowledged, hmembers, _⟩ := FetchCompletion.new_eq_ok.mp hnew
      refine ⟨?_, ?_, ?_, hreads.sublist, hreads.start_le⟩
      · rw [← horder, hrun]
        exact hforall
      · rw [← hmembers]
        simp only [hcompleted, hreads.completed, Nat.zero_add]
        rfl
      · rw [← hacknowledged]
        simp only [ExecutionSession.acknowledged, hcount, Nat.zero_add, runAcknowledges, hrun]

/-! ## When a member was read to its end -/

omit [Sha256] in
/-- A delivered record is one of the records held, among the acknowledged. -/
theorem isDelivered_take_iff {list : List PendingKubernetesRecord} {envelopes : List RawEnvelopeV1}
    (h : List.Forall₂ IsEnvelopeOf list envelopes) (count : Nat)
    (member : KubernetesContainerInstanceV1) (record : KubernetesLogRecordV1) (ordinal : Nat) :
    isDelivered (envelopes.take count) member record ordinal = true ↔
      ∃ p ∈ list.take count, p.nativeIdentity = kubernetesNativeIdentity member record ordinal ∧
        p.record.exactBytes = record.exactBytes := by
  have htake := List.forall₂_take count h
  generalize list.take count = list at htake
  generalize envelopes.take count = envelopes at htake
  clear h
  induction htake with
  | nil => simp [isDelivered]
  | @cons p e list envelopes hhead htail ih =>
      have hone : (e.nativeEventId.map OpaqueBytes.asBytes =
            some (kubernetesNativeIdentity member record ordinal) ∧
          e.record.exactBytes = record.exactBytes) ↔
          (p.nativeIdentity = kubernetesNativeIdentity member record ordinal ∧
            p.record.exactBytes = record.exactBytes) := by
        rw [hhead.1, hhead.2, Option.some.injEq]
        rfl
      simp only [isDelivered, List.any_cons, Bool.or_eq_true, decide_eq_true_eq,
        List.exists_mem_cons_iff, hone] at ih ⊢
      exact or_congr Iff.rfl ih

/-- The condition on one response: it fits the caps, and what was held of
it is in the acknowledged part of the canonical order. -/
def KubernetesRead.Arrives (caps : KubernetesCapsV1)
    (acknowledged : List PendingKubernetesRecord) (read : KubernetesRead) : Prop :=
  read.FitsCaps caps ∧ ∀ p ∈ read.kept caps, p ∈ acknowledged

omit [Sha256] in
/-- The records of a response are delivered exactly when it arrives. -/
theorem delivered_iff_arrives {caps : KubernetesCapsV1} {reads : List KubernetesRead}
    (hnodup : (reads.map KubernetesRead.member).Nodup)
    (hstart : ∀ read ∈ reads, read.heldRecords ≤ caps.maxRecords ∧
      read.heldBytes ≤ caps.maxSourceBytes)
    {envelopes : List RawEnvelopeV1}
    (henvelopes : List.Forall₂ IsEnvelopeOf
      (canonicalOrder (reads.flatMap (KubernetesRead.kept caps))) envelopes)
    (count : Nat) {read : KubernetesRead} (hread : read ∈ reads) :
    (∀ (i : Nat) (record : KubernetesLogRecordV1), read.records[i]? = some record →
        isDelivered (envelopes.take count) read.member record i = true) ↔
      read.Arrives caps
        ((canonicalOrder (reads.flatMap (KubernetesRead.kept caps))).take count) := by
  obtain ⟨hrecords, hbytes⟩ := hstart read hread
  have hlt : ∀ (i : Nat) (record : KubernetesLogRecordV1), read.records[i]? = some record →
      i < u64Bound := by
    intro i record hi
    have := (List.getElem?_eq_some_iff.mp hi).1
    exact Nat.lt_trans this read.response.records.length_lt_u64
  constructor
  · intro hall
    -- what stands for a record of this response was held of it, at its place
    have hfind : ∀ (i : Nat) (record : KubernetesLogRecordV1), read.records[i]? = some record →
        ∃ p ∈ (canonicalOrder (reads.flatMap (KubernetesRead.kept caps))).take count,
          (read.kept caps)[i]? = some p := by
      intro i record hi
      obtain ⟨p, hp, hid, -⟩ := (isDelivered_take_iff henvelopes count _ _ _).mp (hall i record hi)
      refine ⟨p, hp, ?_⟩
      have hin : p ∈ reads.flatMap (KubernetesRead.kept caps) :=
        (List.mem_insertionSort _).mp (List.mem_of_mem_take hp)
      obtain ⟨other, hother, hkept⟩ := List.mem_flatMap.mp hin
      obtain ⟨j, hj⟩ := List.mem_iff_getElem?.mp hkept
      obtain ⟨found, hfound, rfl⟩ := getElem?_keptFrom hj
      have hjlt : 0 + j < u64Bound := by
        have := (List.getElem?_eq_some_iff.mp hfound).1
        have := other.response.records.length_lt_u64
        simp only [KubernetesRead.records] at *
        omega
      obtain ⟨hmember, hplace⟩ := kubernetesNativeIdentity_inj hjlt (hlt i record hi) hid
      obtain rfl : other = read := List.inj_on_of_nodup_map hnodup hother hread hmember
      rwa [show i = j by omega]
    have hlength : (read.kept caps).length = read.records.length := by
      refine Nat.le_antisymm ?_ ?_
      · by_contra hlong
        have hsome := List.getElem?_eq_getElem (l := read.kept caps)
          (i := read.records.length) (by omega)
        obtain ⟨record, hrecord, -⟩ := getElem?_keptFrom hsome
        simp [KubernetesRead.records] at hrecord
      · by_contra hshort
        have hsome := List.getElem?_eq_getElem (l := read.records)
          (i := (read.kept caps).length) (by omega)
        obtain ⟨p, -, hp⟩ := hfind _ _ hsome
        simp at hp
    refine ⟨(length_keptFrom_eq_iff hrecords hbytes).mp hlength, ?_⟩
    intro p hp
    obtain ⟨i, hi⟩ := List.mem_iff_getElem?.mp hp
    obtain ⟨record, hrecord, -⟩ := getElem?_keptFrom hi
    obtain ⟨q, hq, hqi⟩ := hfind i record hrecord
    obtain rfl := Option.some.inj (hi.symm.trans hqi)
    exact hq
  · rintro ⟨hfits, hheld⟩ i record hi
    have hlength : (read.kept caps).length = read.records.length :=
      (length_keptFrom_eq_iff hrecords hbytes).mpr hfits
    obtain ⟨p, hp⟩ : ∃ p, (read.kept caps)[i]? = some p :=
      ⟨_, List.getElem?_eq_getElem (hlength ▸ (List.getElem?_eq_some_iff.mp hi).1)⟩
    have hin := hheld p (List.mem_of_getElem? hp)
    obtain ⟨found, hfound, rfl⟩ := getElem?_keptFrom hp
    obtain rfl := Option.some.inj (hfound.symm.trans hi)
    rw [Nat.zero_add] at hin
    exact (isDelivered_take_iff henvelopes count _ _ _).mpr ⟨_, hin, rfl, rfl⟩

omit [Sha256] in
theorem toEnd_iff {transport : KubernetesTransportV1} {acknowledged : List RawEnvelopeV1}
    {read : KubernetesRead} :
    read.toEnd transport acknowledged = true ↔ transport.unchanged read.member = true ∧
      ∀ (i : Nat) (record : KubernetesLogRecordV1), read.records[i]? = some record →
        isDelivered acknowledged read.member record i = true := by
  simp only [KubernetesRead.toEnd, Bool.and_eq_true, List.all_eq_true, Prod.forall,
    List.mem_zipIdx_iff_getElem?]
  exact and_congr_right fun _ => forall_comm

/-! ## Counting members -/

omit [Sha256] in
/-- Members met once each are counted by what was met. -/
theorem countP_any_of_sublist {q : KubernetesRead → Bool} :
    ∀ {reads : List KubernetesRead} {members : List KubernetesContainerInstanceV1},
      (reads.map KubernetesRead.member).Sublist members → members.Nodup →
      members.countP (fun member => reads.any fun read => read.member = member && q read) =
        reads.countP q
  | reads, [], hsub, _ => by
      obtain rfl := List.map_eq_nil_iff.mp (List.sublist_nil.mp hsub)
      rfl
  | reads, member :: members, hsub, hnodup => by
      obtain ⟨hout, hrest⟩ := List.nodup_cons.mp hnodup
      have hnone : ∀ {reads : List KubernetesRead},
          (reads.map KubernetesRead.member).Sublist members →
          (reads.any fun read => read.member = member && q read) = false := by
        intro reads hin
        refine List.any_eq_false.mpr fun read hread => ?_
        have hmem := hin.subset (List.mem_map_of_mem hread)
        have hne : read.member ≠ member := fun heq => hout (heq ▸ hmem)
        simp [hne]
      rcases List.sublist_cons_iff.mp hsub with hskip | ⟨tail, htail, hin⟩
      · rw [List.countP_cons_of_neg (by simp [hnone hskip])]
        exact countP_any_of_sublist hskip hrest
      · obtain ⟨read, reads, rfl, rfl, rfl⟩ := List.map_eq_cons_iff.mp htail
        have hothers : ∀ other ∈ members,
            ((read :: reads).any fun r => r.member = other && q r) =
              reads.any fun r => r.member = other && q r := by
          intro other hother
          have hne : read.member ≠ other := fun heq => hout (heq ▸ hother)
          simp [hne]
        rw [List.countP_cons, List.countP_cons, List.countP_congr (fun other hother => by
          rw [hothers other hother]), countP_any_of_sublist hin hrest, List.any_cons,
          hnone hin]
        simp

omit [Sha256] in
/-- A count of fewer is no smaller exactly when none was left out. -/
theorem countP_le_iff {p q : KubernetesRead → Bool} : ∀ {reads : List KubernetesRead},
    (∀ read ∈ reads, q read = true → p read = true) →
    (reads.countP p ≤ reads.countP q ↔ ∀ read ∈ reads, p read = true → q read = true)
  | [], _ => by simp
  | read :: reads, hall => by
      obtain ⟨hhead, htail⟩ := List.forall_mem_cons.mp hall
      have hle := List.countP_mono_left htail
      have ih := countP_le_iff htail
      rw [List.countP_cons, List.countP_cons, List.forall_mem_cons, ← ih]
      cases hp : p read <;> cases hq : q read
      · simp
      · exact absurd (hhead hq) (by simp [hp])
      · simp only [Bool.false_eq_true, if_false, if_true, Nat.add_zero, forall_const, false_and,
          iff_false]
        omega
      · simp

/-- The count of completed members is at most the number of members read
to their end exactly when every response of a member that was found
unchanged fits the caps beside what was held before, and the records held
of it are in the acknowledged part of the canonical order. -/
theorem completed_members_read_iff {plan : KubernetesPlanV1} {transport : KubernetesTransportV1}
    {context : ExecutionContext} {sink : EnvelopeBatchSinkV1} {isCancelled : Nat → Bool}
    {completion : FetchCompletion}
    (h : executeBatches plan transport context sink isCancelled = .ok completion) :
    completion.members.completed ≤ membersReadToEnd plan transport context sink isCancelled ↔
      ∀ read ∈ runReads plan transport isCancelled, transport.unchanged read.member = true →
        read.Arrives plan.caps ((runOrder plan transport isCancelled).take
          (runAcknowledges plan transport context sink isCancelled)) := by
  obtain ⟨henvelopes, hcompleted, -, hsub, hstart⟩ := executeBatches_eq_ok h
  have hnodup := hsub.nodup plan.nodup
  rw [hcompleted, membersReadToEnd, countP_any_of_sublist hsub plan.nodup,
    countP_le_iff fun read _ hend => (toEnd_iff.mp hend).1]
  refine forall₂_congr fun read hread => ?_
  have harrives := delivered_iff_arrives hnodup hstart henvelopes
    (runAcknowledges plan transport context sink isCancelled) hread
  rw [toEnd_iff, acknowledgedEnvelopes, harrives]
  exact ⟨fun himp hsame => (himp hsame).2, fun himp hsame => ⟨hsame, himp hsame⟩⟩

end Run

/-! ## Concrete runs -/

def replayMember : KubernetesContainerInstanceV1 :=
  let one : Vec UInt8 := replayAdapter.version
  ⟨one, one, one, one, one, 0, .current, by decide⟩

/-- Records of at most one byte. -/
def replayPlan : KubernetesPlanV1 where
  members := ⟨[replayMember], by decide⟩
  caps := {
    maxRecords := 2
    maxSourceBytes := 4
    maxMembers := 1
    maxRecordBytes := 1
    positive := by decide
    safe := by decide
    record_le_authorized := by decide
    record_le_source := by decide }
  nonempty := by decide
  length_le := by decide
  nodup := by decide

/-- The logs of every member are this one record, and no member changes. -/
def replayTransport (payload : Vec UInt8) : KubernetesTransportV1 where
  readLogs _ _ := .ok
    { records := .singleton ⟨.stdout, none, none, payload, .empty⟩ }
  revalidate member := .ok ⟨member.podUid, member.containerId, member.restartCount⟩

def kubernetesContext : ExecutionContext where
  fetchIdentity := ⟨.repeated 1, .repeated 2, .repeated 3,
    ⟨⟨asciiBytes kubernetesAdapterKindV1, by decide⟩,
      ⟨asciiBytes kubernetesAdapterVersionV1, by decide⟩, by decide, by decide⟩⟩
  sourceIdentityDigest := .repeated 4

/-- Persists every envelope of every batch as it is. -/
def persistingSink [Sha256] : EnvelopeBatchSinkV1 where
  commitBatch batch := .ok ⟨batch.envelopes.toList.map fun e =>
    ⟨e.identity.retrievalId, sourceRecordId e, e.ordering.acquisitionSequence,
      e.record.sourceLen, .persisted (.repeated 9) .sourceExact⟩⟩

theorem completed_members_read_iff_replay :
    letI := fips180
    let transport := replayTransport ⟨[97], by decide⟩
    ∃ completion, executeBatches replayPlan transport kubernetesContext persistingSink
        (fun _ => false) = .ok completion ∧
      (completion.members.completed ≤ membersReadToEnd replayPlan transport kubernetesContext
          persistingSink (fun _ => false) ↔
        ∀ read ∈ runReads replayPlan transport fun _ => false,
          transport.unchanged read.member = true → read.Arrives replayPlan.caps
            ((runOrder replayPlan transport fun _ => false).take (runAcknowledges replayPlan
              transport kubernetesContext persistingSink fun _ => false))) := by
  rw [fips180_eq]
  let := fips180Evaluated
  intro transport
  have hok : (executeBatches replayPlan transport kubernetesContext persistingSink
      (fun _ => false)).isOk = true := by decide +kernel
  cases hrun : executeBatches replayPlan transport kubernetesContext persistingSink
      (fun _ => false) with
  | ok completion => exact ⟨completion, rfl, completed_members_read_iff hrun⟩
  | error fault =>
      rw [hrun] at hok
      cases hok

/-- One record of two bytes under a cap of one: the record is dropped, the
member is looked at again and counted. -/
theorem capped_member_counts_completed :
    letI := fips180
    let transport := replayTransport ⟨[97, 97], by decide⟩
    ∃ completion, executeBatches replayPlan transport kubernetesContext persistingSink
        (fun _ => false) = .ok completion ∧
      completion.members.completed = 1 ∧
      membersReadToEnd replayPlan transport kubernetesContext persistingSink
        (fun _ => false) = 0 := by
  exact ⟨_, rfl, rfl, rfl⟩

end Evidentrail
