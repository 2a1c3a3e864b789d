import Evidentrail.Core.Identity
import Evidentrail.Ingest.KubernetesRun
import Mathlib.Data.List.Forall2

/-!
# What a completed member was read to

The native identity of a record determines its member and its place in
the response, so the records of a run never meet their own identity
again: the duplicate and the conflict branch are never taken, and what is
held of a response is the leading part the caps leave. The second look at
a member does not ask how long that part is.
-/

namespace Evidentrail

open Rust Encoding Std

/-! ## Identities -/

theorem encodeFields_inj {xs ys : List (List UInt8)} (hx : ∀ x ∈ xs, x.length < 2 ^ 64)
    (hy : ∀ y ∈ ys, y.length < 2 ^ 64) (h : encodeFields xs = encodeFields ys) : xs = ys := by
  have hends : Ends (fun l : List {x : List UInt8 // x.length < 2 ^ 64} =>
      l.flatMap fun x => field x.1) (fun l => l.map Subtype.val) :=
    Ends.flatMap (commits_field (f := Subtype.val) fun x => x.2) fun _ => field_ne_nil _
  have hval : ∀ (l : List (List UInt8)) (hl : ∀ x ∈ l, x.length < 2 ^ 64),
      (l.attachWith _ hl).flatMap (fun x => field x.1) = encodeFields l := by
    intro l hl
    rw [encodeFields, ← List.flatMap_map, List.attachWith_map_subtype_val]
  have hkey := hends (a := xs.attachWith _ hx) (b := ys.attachWith _ hy)
    (by simp only [hval]; exact h)
  simpa using hkey

theorem KubernetesContainerInstanceKindV1.code_inj {a b : KubernetesContainerInstanceKindV1}
    (h : asciiBytes a.code = asciiBytes b.code) : a = b := by
  revert h
  cases a <;> cases b <;> decide

theorem memberFields_length {member : KubernetesContainerInstanceV1} :
    ∀ x ∈ memberFields member, x.length < 2 ^ 64 := by
  intro x hx
  simp only [memberFields, List.mem_cons, List.not_mem_nil, or_false] at hx
  obtain rfl | rfl | rfl | rfl | rfl | rfl | rfl := hx
  · exact member.clusterIdentity.length_lt_u64
  · exact member.namespaceName.length_lt_u64
  · exact member.podUid.length_lt_u64
  · exact member.container.length_lt_u64
  · exact member.containerId.length_lt_u64
  · rw [length_leBytes]
    decide
  · cases member.instanceKind <;> decide

theorem memberFields_inj {m m' : KubernetesContainerInstanceV1}
    (h : memberFields m = memberFields m') : m = m' := by
  obtain ⟨c, n, p, k, i, r, d, hm⟩ := m
  obtain ⟨c', n', p', k', i', r', d', hm'⟩ := m'
  simp only [memberFields, List.cons.injEq, and_true] at h
  obtain ⟨hc, hn, hp, hk, hi, hr, hd⟩ := h
  obtain rfl := Vec.ext hc
  obtain rfl := Vec.ext hn
  obtain rfl := Vec.ext hp
  obtain rfl := Vec.ext hk
  obtain rfl := Vec.ext hi
  obtain rfl := UInt32.toNat_inj.mp (leBytes_inj r.toNat_lt r'.toNat_lt hr)
  obtain rfl := KubernetesContainerInstanceKindV1.code_inj hd
  rfl

/-- Member and place in the response are read back from the identity. -/
theorem kubernetesNativeIdentity_inj {m m' : KubernetesContainerInstanceV1}
    {record record' : KubernetesLogRecordV1} {o o' : Nat} (ho : o < u64Bound)
    (ho' : o' < u64Bound)
    (h : kubernetesNativeIdentity m record o = kubernetesNativeIdentity m' record' o') :
    m = m' ∧ o = o' := by
  have hlength : ∀ (m : KubernetesContainerInstanceV1) (record : KubernetesLogRecordV1) (o : Nat),
      ∀ x ∈ memberFields m ++ [asciiBytes record.stream.code,
        record.providerTimestamp.elim [] Vec.toList, leBytes 8 o], x.length < 2 ^ 64 := by
    intro m record o x hx
    rcases List.mem_append.mp hx with hx | hx
    · exact memberFields_length x hx
    simp only [List.mem_cons, List.not_mem_nil, or_false] at hx
    obtain rfl | rfl | rfl := hx
    · cases record.stream <;> decide
    · cases record.providerTimestamp with
      | none => exact Nat.two_pow_pos 64
      | some bytes => exact bytes.length_lt_u64
    · rw [length_leBytes]
      decide
  have hfields := encodeFields_inj (hlength m record o) (hlength m' record' o') h
  obtain ⟨hmember, hrest⟩ := List.append_inj hfields rfl
  simp only [List.cons.injEq, and_true] at hrest
  exact ⟨memberFields_inj hmember, leBytes_inj ho ho' hrest.2.2⟩

/-! ## What the caps leave of a response -/

theorem KubernetesCapsV1.reached_eq_none_iff {caps : KubernetesCapsV1}
    {records bytes sourceLen : Nat} :
    caps.reached records bytes sourceLen = none ↔
      sourceLen ≤ caps.maxRecordBytes ∧ records < caps.maxRecords ∧
        bytes + sourceLen ≤ caps.maxSourceBytes := by
  have hsafe : caps.maxSourceBytes < u64Bound :=
    Nat.lt_of_le_of_lt caps.safe.2.1 (by decide)
  unfold reached
  by_cases hrecord : sourceLen > caps.maxRecordBytes
  · simp only [if_pos hrecord, reduceCtorEq, false_iff]
    omega
  rw [if_neg hrecord]
  by_cases hcount : records ≥ caps.maxRecords
  · simp only [if_pos hcount, reduceCtorEq, false_iff]
    omega
  rw [if_neg hcount]
  by_cases hroom : bytes + sourceLen < u64Bound
  · rw [checkedAdd_of_lt hroom]
    simp only [Option.all_some, decide_eq_true_eq, ite_eq_right_iff, reduceCtorEq, imp_false]
    omega
  · have hnone : checkedAdd bytes sourceLen = none := if_neg hroom
    simp only [hnone, Option.all_none, if_true, reduceCtorEq, false_iff]
    omega

/-- The source bytes of a list of records. -/
def recordBytesOf (records : List KubernetesLogRecordV1) : Nat :=
  (records.map KubernetesLogRecordV1.sourceLen).sum

/-- The leading records that no cap keeps out, from a position on, after so
many records and bytes. -/
def keptFrom (caps : KubernetesCapsV1) (member : KubernetesContainerInstanceV1) :
    (position records bytes ordinal : Nat) → List KubernetesLogRecordV1 →
      List PendingKubernetesRecord
  | _, _, _, _, [] => []
  | position, records, bytes, ordinal, record :: rest =>
      if (caps.reached records bytes record.sourceLen).isSome then []
      else
        ⟨member, record, position, kubernetesNativeIdentity member record position, ordinal⟩ ::
          keptFrom caps member (position + 1) (records + 1) (bytes + record.sourceLen)
            (ordinal + 1) rest

/-- All of them are kept exactly when they fit together. -/
theorem length_keptFrom_eq_iff {caps : KubernetesCapsV1}
    {member : KubernetesContainerInstanceV1} :
    ∀ {list : List KubernetesLogRecordV1} {position records bytes ordinal : Nat},
      records ≤ caps.maxRecords → bytes ≤ caps.maxSourceBytes →
      ((keptFrom caps member position records bytes ordinal list).length = list.length ↔
        (∀ record ∈ list, record.sourceLen ≤ caps.maxRecordBytes) ∧
          records + list.length ≤ caps.maxRecords ∧
          bytes + recordBytesOf list ≤ caps.maxSourceBytes)
  | [], _, _, _, _, hrecords, hbytes => by
      simpa [keptFrom, recordBytesOf] using ⟨hrecords, hbytes⟩
  | record :: rest, position, records, bytes, ordinal, hrecords, hbytes => by
      simp only [keptFrom, recordBytesOf, List.map_cons, List.sum_cons, List.forall_mem_cons,
        List.length_cons]
      cases hreached : caps.reached records bytes record.sourceLen with
      | some reason =>
          have hnot := mt KubernetesCapsV1.reached_eq_none_iff.mpr
            (hreached ▸ Option.some_ne_none reason)
          simp only [Option.isSome_some, if_true, List.length_nil]
          constructor
          · intro h
            omega
          · rintro ⟨⟨hlen, -⟩, hcount, hsum⟩
            exact absurd ⟨hlen, by omega, by omega⟩ hnot
      | none =>
          obtain ⟨hlen, hcount, hsum⟩ := KubernetesCapsV1.reached_eq_none_iff.mp hreached
          have hrest := @length_keptFrom_eq_iff caps member rest (position + 1) (records + 1)
            (bytes + record.sourceLen) (ordinal + 1) (by omega) hsum
          simp only [Option.isSome_none, Bool.false_eq_true, if_false, List.length_cons,
            Nat.add_right_cancel_iff, hrest, recordBytesOf]
          constructor
          · rintro ⟨hall, hn, hb⟩
            exact ⟨⟨hlen, hall⟩, by omega, by omega⟩
          · rintro ⟨⟨-, hall⟩, hn, hb⟩
            exact ⟨hall, by omega, by omega⟩

/-- What is kept at which place. -/
theorem getElem?_keptFrom {caps : KubernetesCapsV1} {member : KubernetesContainerInstanceV1} :
    ∀ {list : List KubernetesLogRecordV1} {position records bytes ordinal i : Nat}
      {p : PendingKubernetesRecord},
      (keptFrom caps member position records bytes ordinal list)[i]? = some p →
        ∃ record, list[i]? = some record ∧ p = ⟨member, record, position + i,
          kubernetesNativeIdentity member record (position + i), ordinal + i⟩
  | [], _, _, _, _, _, _, h => by simp [keptFrom] at h
  | record :: rest, position, records, bytes, ordinal, i, p, h => by
      rw [keptFrom] at h
      split at h
      · simp at h
      cases i with
      | zero =>
          obtain rfl := Option.some.inj h
          exact ⟨record, rfl, rfl⟩
      | succ i =>
          rw [List.getElem?_cons_succ] at h
          obtain ⟨found, hfound, rfl⟩ := getElem?_keptFrom h
          refine ⟨found, hfound, ?_⟩
          rw [show position + 1 + i = position + (i + 1) by omega,
            show ordinal + 1 + i = ordinal + (i + 1) by omega]

theorem mem_keptFrom_position {caps : KubernetesCapsV1}
    {member : KubernetesContainerInstanceV1} {list : List KubernetesLogRecordV1}
    {position records bytes ordinal : Nat} {p : PendingKubernetesRecord}
    (h : p ∈ keptFrom caps member position records bytes ordinal list) :
    p.member = member ∧ position ≤ p.responseOrdinal ∧
      p.nativeIdentity = kubernetesNativeIdentity p.member p.record p.responseOrdinal := by
  obtain ⟨i, hi⟩ := List.mem_iff_getElem?.mp h
  obtain ⟨record, -, rfl⟩ := getElem?_keptFrom hi
  exact ⟨rfl, Nat.le_add_right .., rfl⟩

/-! ## The state of the loops -/

/-- The bytes of the records held. -/
def pendingBytes (pending : List PendingKubernetesRecord) : Nat :=
  (pending.map fun p => p.record.sourceLen).sum

namespace KubernetesState

/-- What the loops keep: the identities seen are those of the records held,
each named after its member and place, and the caps are kept. -/
structure Held (caps : KubernetesCapsV1) (s : KubernetesState) : Prop where
  seen : ∀ (id : List UInt8) (bytes : List UInt8), s.seenNative[id]? = some bytes →
    ∃ p ∈ s.pending, p.nativeIdentity = id
  named : ∀ p ∈ s.pending, p.responseOrdinal < u64Bound ∧
    p.nativeIdentity = kubernetesNativeIdentity p.member p.record p.responseOrdinal
  bytes : s.totalPendingBytes = pendingBytes s.pending
  records_le : s.pending.length ≤ caps.maxRecords
  bytes_le : s.totalPendingBytes ≤ caps.maxSourceBytes

/-- No record of the member was held at this place or behind it. -/
def Fresh (s : KubernetesState) (member : KubernetesContainerInstanceV1) (position : Nat) : Prop :=
  ∀ p ∈ s.pending, p.member = member → p.responseOrdinal < position

theorem Held.seen_none {caps : KubernetesCapsV1} {s : KubernetesState} (hs : s.Held caps)
    {member : KubernetesContainerInstanceV1} {position : Nat} (hfresh : s.Fresh member position)
    (hposition : position < u64Bound) (record : KubernetesLogRecordV1) :
    s.seenNative[kubernetesNativeIdentity member record position]? = none := by
  cases hget : s.seenNative[kubernetesNativeIdentity member record position]? with
  | none => rfl
  | some bytes =>
      obtain ⟨p, hp, hid⟩ := hs.seen _ _ hget
      obtain ⟨hbound, hname⟩ := hs.named p hp
      obtain ⟨hmember, hplace⟩ :=
        kubernetesNativeIdentity_inj hbound hposition (hname.symm.trans hid)
      have := hfresh p hp hmember
      omega

theorem Held.hold {caps : KubernetesCapsV1} {s : KubernetesState} (hs : s.Held caps)
    {member : KubernetesContainerInstanceV1} {position ordinal : Nat}
    {record : KubernetesLogRecordV1} (hposition : position < u64Bound)
    (hfits : caps.reached s.pending.length s.totalPendingBytes record.sourceLen = none) :
    (s.hold ⟨member, record, position, kubernetesNativeIdentity member record position,
      ordinal⟩).Held caps := by
  obtain ⟨-, hcount, hsum⟩ := KubernetesCapsV1.reached_eq_none_iff.mp hfits
  constructor
  · intro id bytes hget
    simp only [KubernetesState.hold, ExtTreeMap.getElem?_insert] at hget ⊢
    split at hget
    · rename_i heq
      exact ⟨_, List.mem_append_right _ (List.mem_singleton_self _),
        LawfulEqOrd.eq_of_compare heq⟩
    · obtain ⟨p, hp, hid⟩ := hs.seen id bytes hget
      exact ⟨p, List.mem_append_left _ hp, hid⟩
  · intro p hp
    rcases List.mem_append.mp hp with hp | hp
    · exact hs.named p hp
    · obtain rfl := List.mem_singleton.mp hp
      exact ⟨hposition, rfl⟩
  · simp only [KubernetesState.hold, hs.bytes, pendingBytes, List.map_append, List.map_cons,
      List.map_nil, List.sum_append, List.sum_cons, List.sum_nil, Nat.add_zero]
  · simp only [KubernetesState.hold, List.length_append, List.length_singleton]
    omega
  · exact hsum

/-- Only what is held matters. -/
theorem Held.of_eq {caps : KubernetesCapsV1} {s s' : KubernetesState} (hs : s.Held caps)
    (hpending : s'.pending = s.pending) (hseen : s'.seenNative = s.seenNative)
    (hbytes : s'.totalPendingBytes = s.totalPendingBytes) : s'.Held caps := by
  obtain ⟨seen, named, bytes, records_le, bytes_le⟩ := hs
  constructor
  · rw [hseen, hpending]; exact seen
  · rw [hpending]; exact named
  · rw [hbytes, hpending]; exact bytes
  · rw [hpending]; exact records_le
  · rw [hbytes]; exact bytes_le

/-- The loop over the records holds what the caps leave and counts nothing. -/
theorem readRecords_eq_ok {caps : KubernetesCapsV1} {member : KubernetesContainerInstanceV1} :
    ∀ {list : List KubernetesLogRecordV1} {position : Nat} {s s' : KubernetesState},
      s.Held caps → s.Fresh member position → readRecords caps member position list s = .ok s' →
      s'.Held caps ∧ s'.pending = s.pending ++ keptFrom caps member position s.pending.length
        s.totalPendingBytes s.providerAcquisitionOrdinal list ∧
        s'.completedMembers = s.completedMembers ∧ s'.attemptedMembers = s.attemptedMembers
  | [], _, s, s', hs, _, h => by
      obtain rfl := Except.ok.inj h
      exact ⟨hs, by rw [keptFrom, List.append_nil], rfl, rfl⟩
  | record :: rest, position, s, s', hs, hfresh, h => by
      rw [readRecords] at h
      obtain ⟨next, hnext, h⟩ := except_bind_eq_ok.mp h
      obtain ⟨-, rfl⟩ := checkedAdd_eq_some.mp (okOr_eq_ok.mp hnext)
      simp only [observe] at h
      have hobserved : (s.observe record (s.providerAcquisitionOrdinal + 1)).Held caps :=
        hs.of_eq rfl rfl rfl
      cases hreached : caps.reached s.pending.length s.totalPendingBytes record.sourceLen with
      | some reason =>
          rw [hreached] at h
          obtain rfl := Except.ok.inj h
          refine ⟨hs.of_eq rfl rfl rfl, ?_, rfl, rfl⟩
          simp only [keptFrom, hreached, Option.isSome_some, if_true, List.append_nil]
          rfl
      | none =>
          rw [hreached] at h
          obtain ⟨ordinal, hordinal, h⟩ := except_bind_eq_ok.mp h
          obtain ⟨hposition, rfl⟩ := u64TryFrom_eq_some.mp (okOr_eq_ok.mp hordinal)
          simp only [hs.seen_none hfresh hposition record] at h
          have hheld := @Held.hold caps _ hobserved member ordinal s.providerAcquisitionOrdinal
            record hposition hreached
          have hnext : (KubernetesState.hold (s.observe record (s.providerAcquisitionOrdinal + 1))
              ⟨member, record, ordinal, kubernetesNativeIdentity member record ordinal,
                s.providerAcquisitionOrdinal⟩).Fresh member (ordinal + 1) := by
            intro p hp hmember
            rcases List.mem_append.mp hp with hp | hp
            · exact Nat.lt_succ_of_lt (hfresh p hp hmember)
            · obtain rfl := List.mem_singleton.mp hp
              exact Nat.lt_succ_self _
          obtain ⟨hs', hpending, hcompleted, hattempted⟩ := readRecords_eq_ok hheld hnext h
          refine ⟨hs', ?_, hcompleted, hattempted⟩
          rw [hpending]
          simp only [KubernetesState.hold, KubernetesState.observe, List.length_append,
            List.length_singleton, List.append_assoc, List.singleton_append, keptFrom, hreached,
            Option.isSome_none, Bool.false_eq_true, if_false]

end KubernetesState

/-! ## The reads of a run -/

/-- A response as the run received it: what was held by then and the
ordinal of its first record. -/
structure KubernetesRead where
  member : KubernetesContainerInstanceV1
  heldRecords : Nat
  heldBytes : Nat
  firstOrdinal : Nat
  response : KubernetesLogResponseV1

namespace KubernetesRead

def records (read : KubernetesRead) : List KubernetesLogRecordV1 := read.response.records.toList

/-- The records held of the response. -/
def kept (caps : KubernetesCapsV1) (read : KubernetesRead) : List PendingKubernetesRecord :=
  keptFrom caps read.member 0 read.heldRecords read.heldBytes read.firstOrdinal read.records

/-- The whole response fits the caps beside what was held before. -/
def FitsCaps (caps : KubernetesCapsV1) (read : KubernetesRead) : Prop :=
  (∀ record ∈ read.records, record.sourceLen ≤ caps.maxRecordBytes) ∧
    read.heldRecords + read.records.length ≤ caps.maxRecords ∧
    read.heldBytes + recordBytesOf read.records ≤ caps.maxSourceBytes

end KubernetesRead

namespace KubernetesState

/-- The responses received from here on, in order. -/
def memberReads (env : KubernetesEnvironment) :
    List KubernetesContainerInstanceV1 → KubernetesState → List KubernetesRead
  | [], _ => []
  | member :: rest, s =>
      match s.blocked env with
      | some _ => []
      | none =>
          match env.transport.readLogs member (s.request env) with
          | .error error => memberReads env rest (s.attempt.observeTransportError error)
          | .ok response =>
              ⟨member, s.pending.length, s.totalPendingBytes, s.providerAcquisitionOrdinal,
                response⟩ ::
                match readResponse env member response s.attempt with
                | .ok s => if s.halted then [] else memberReads env rest s
                | .error _ => []

theorem blocked_eq_some {env : KubernetesEnvironment} {s stopped : KubernetesState}
    (h : s.blocked env = some stopped) : stopped.pending = s.pending ∧
      stopped.seenNative = s.seenNative ∧ stopped.totalPendingBytes = s.totalPendingBytes ∧
      stopped.completedMembers = s.completedMembers := by
  unfold blocked at h
  split at h
  · obtain rfl := Option.some.inj h
    exact ⟨rfl, rfl, rfl, rfl⟩
  · split at h
    · obtain rfl := Option.some.inj h
      exact ⟨rfl, rfl, rfl, rfl⟩
    · cases h

/-- The second look counts the member when it is unchanged. -/
theorem observeRevalidation_spec (s : KubernetesState) (transport : KubernetesTransportV1)
    (member : KubernetesContainerInstanceV1) :
    (s.observeRevalidation transport member).pending = s.pending ∧
      (s.observeRevalidation transport member).seenNative = s.seenNative ∧
      (s.observeRevalidation transport member).totalPendingBytes = s.totalPendingBytes ∧
      (s.observeRevalidation transport member).completedMembers =
        s.completedMembers + if transport.unchanged member then 1 else 0 := by
  unfold observeRevalidation
  cases hlook : transport.revalidate member with
  | ok observation =>
      cases hsame : transport.unchanged member <;> simp
  | error error =>
      have hsame : transport.unchanged member = false := by
        rw [KubernetesTransportV1.unchanged, hlook]
      simp [hsame, observeTransportError]

/-- One response: what it adds to the records held and to the count. -/
theorem readResponse_eq_ok {env : KubernetesEnvironment} {member : KubernetesContainerInstanceV1}
    {response : KubernetesLogResponseV1} {s s' : KubernetesState} (hs : s.Held env.caps)
    (hfresh : ∀ p ∈ s.pending, p.member ≠ member)
    (h : readResponse env member response s = .ok s') :
    s'.Held env.caps ∧
      s'.pending = s.pending ++ KubernetesRead.kept env.caps ⟨member, s.pending.length,
        s.totalPendingBytes, s.providerAcquisitionOrdinal, response⟩ ∧
      s'.completedMembers =
        s.completedMembers + if env.transport.unchanged member then 1 else 0 := by
  obtain ⟨mid, hmid, h⟩ := except_bind_eq_ok.mp h
  obtain rfl := Except.ok.inj h
  obtain ⟨hheld, hpending, hcompleted, -⟩ := readRecords_eq_ok
    (show (s.observeResponse response).Held env.caps from hs.of_eq rfl rfl rfl)
    (fun p hp hmember => absurd hmember (hfresh p hp)) hmid
  obtain ⟨hkeep, hseen, hbytes, hcount⟩ := mid.observeRevalidation_spec env.transport member
  exact ⟨hheld.of_eq hkeep hseen hbytes, by rw [hkeep, hpending]; rfl,
    by rw [hcount, hcompleted]; rfl⟩

/-- What a run of the loop over the members leaves, given the responses it
received. -/
structure ReadsLeave (env : KubernetesEnvironment)
    (members : List KubernetesContainerInstanceV1) (reads : List KubernetesRead)
    (s s' : KubernetesState) : Prop where
  held : s'.Held env.caps
  pending : s'.pending = s.pending ++ reads.flatMap (KubernetesRead.kept env.caps)
  completed : s'.completedMembers = s.completedMembers +
    reads.countP fun read => env.transport.unchanged read.member
  sublist : (reads.map KubernetesRead.member).Sublist members
  start_le : ∀ read ∈ reads, read.heldRecords ≤ env.caps.maxRecords ∧
    read.heldBytes ≤ env.caps.maxSourceBytes

theorem ReadsLeave.nil {env : KubernetesEnvironment}
    {members : List KubernetesContainerInstanceV1} {s s' : KubernetesState}
    (hheld : s'.Held env.caps) (hpending : s'.pending = s.pending)
    (hcompleted : s'.completedMembers = s.completedMembers) :
    ReadsLeave env members [] s s' :=
  ⟨hheld, by rw [hpending, List.flatMap_nil, List.append_nil],
    by rw [hcompleted, List.countP_nil, Nat.add_zero], List.nil_sublist _, by simp⟩

/-- The loop over the members: what is held at its end is what the caps
left of each response, and the count is of the members that were read and
found unchanged. -/
theorem readMembers_eq_ok {env : KubernetesEnvironment} :
    ∀ {members : List KubernetesContainerInstanceV1} {s s' : KubernetesState},
      s.Held env.caps → members.Nodup → (∀ p ∈ s.pending, p.member ∉ members) →
      readMembers env members s = .ok s' →
      ReadsLeave env members (memberReads env members s) s s'
  | [], s, s', hs, _, _, h => by
      obtain rfl := Except.ok.inj h
      exact .nil hs rfl rfl
  | member :: rest, s, s', hs, hnodup, hfresh, h => by
      obtain ⟨hmember, hrest⟩ := List.nodup_cons.mp hnodup
      rw [readMembers] at h
      rw [memberReads]
      cases hblocked : s.blocked env with
      | some stopped =>
          rw [hblocked] at h
          obtain rfl := Except.ok.inj h
          obtain ⟨hpending, hseen, hbytes, hcompleted⟩ := blocked_eq_some hblocked
          exact .nil (hs.of_eq hpending hseen hbytes) hpending hcompleted
      | none =>
          rw [hblocked] at h
          cases hread : env.transport.readLogs member (s.request env) with
          | error error =>
              rw [hread] at h
              obtain ⟨hheld, hpending, hcompleted, hsub, hstart⟩ := readMembers_eq_ok
                (s := s.attempt.observeTransportError error)
                (hs.of_eq rfl rfl rfl) hrest
                (fun p hp hin => hfresh p hp (List.mem_cons_of_mem _ hin)) h
              exact ⟨hheld, hpending, hcompleted, hsub.cons _, hstart⟩
          | ok response =>
              rw [hread] at h
              obtain ⟨mid, hmid, h⟩ := except_bind_eq_ok.mp h
              have hnot : ∀ p ∈ s.attempt.pending, p.member ≠ member :=
                fun p hp heq => hfresh p hp (heq ▸ List.mem_cons_self ..)
              obtain ⟨hheld, hpending, hcompleted⟩ :=
                readResponse_eq_ok (show s.attempt.Held env.caps from hs.of_eq rfl rfl rfl) hnot
                  hmid
              simp only [hmid]
              cases hhalted : mid.halted with
              | true =>
                  rw [hhalted] at h
                  obtain rfl := Except.ok.inj h
                  refine ⟨hheld, ?_, ?_, ?_, ?_⟩
                  · rw [hpending]
                    simp [attempt]
                  · rw [hcompleted]
                    simp [attempt, List.countP_cons]
                  · simp
                  · rintro read hin
                    obtain rfl := List.mem_singleton.mp (by simpa using hin)
                    exact ⟨hs.records_le, hs.bytes_le⟩
              | false =>
                  rw [hhalted] at h
                  have hfresh' : ∀ p ∈ mid.pending, p.member ∉ rest := by
                    intro p hp hin
                    rw [hpending] at hp
                    rcases List.mem_append.mp hp with hp | hp
                    · exact hfresh p hp (List.mem_cons_of_mem _ hin)
                    · have heq : p.member = member := (mem_keptFrom_position hp).1
                      exact hmember (heq ▸ hin)
                  obtain ⟨hheld', hpending', hcompleted', hsub, hstart⟩ :=
                    readMembers_eq_ok hheld hrest hfresh' h
                  refine ⟨hheld', ?_, ?_, ?_, ?_⟩
                  · rw [hpending', hpending]
                    simp [attempt]
                  · rw [hcompleted', hcompleted]
                    simp only [attempt, Bool.false_eq_true, if_false, List.countP_cons]
                    omega
                  · simpa using hsub
                  · rintro read hin
                    rcases List.mem_cons.mp hin with rfl | hin
                    · exact ⟨hs.records_le, hs.bytes_le⟩
                    · exact hstart read (by simpa using hin)

end KubernetesState

end Evidentrail
