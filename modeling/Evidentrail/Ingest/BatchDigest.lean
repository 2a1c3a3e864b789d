import Evidentrail.Core.Identity
import Evidentrail.Ingest.Batch
import Mathlib.Data.List.Nodup

/-!
# What a batch digest commits to

The preimage of a batch is read back from the front: the kind of a
metadata value selects how the rest of it is read, and every list is
behind its count, so the whole tree is determined. What is lost is lost
in codes. A versioned format or encoding hint is hashed as
`other_versioned` without its two numbers, and the source-record
identity at the head of each envelope does the same to a versioned
fragment reason (`Core.Identity`).
-/

namespace Evidentrail

open Rust Encoding

/-! ## Metadata -/

theorem commits_metadataKind :
    Commits (fun v : NativeMetadataValue => field (asciiBytes v.kind))
      (fun v => asciiBytes v.kind) :=
  commits_field (f := fun v : NativeMetadataValue => asciiBytes v.kind)
    (by intro v; cases v <;> (simp only [NativeMetadataValue.kind]; decide))

theorem commits_boolean :
    Commits (fun b : Bool => [if b then (1 : UInt8) else 0]) (fun b => b) := by
  refine commits_of_length 1 (fun _ => rfl) ?_
  decide

theorem commits_signed :
    Commits (fun v : Int64 => field (leBytes 8 v.toUInt64.toNat)) (fun v => v) :=
  (commits_u64Field Int64.toUInt64).map fun _ _ h => congrArg UInt64.toInt64 h

theorem commits_length {α : Type*} :
    Commits (fun l : {l : List α // l.length < 2 ^ 63} => field (leBytes 8 l.1.length))
      (fun l => l.1.length) :=
  commits_leField 8 (by decide) fun l => Nat.lt_trans l.2 (by decide)

mutual

/-- A value is read back whatever follows it. -/
theorem hashMetadataValue_inj : ∀ {v w : NativeMetadataValue} {s t : List UInt8},
    v.addressable = true → w.addressable = true →
    hashMetadataValue v ++ s = hashMetadataValue w ++ t → v = w ∧ s = t := by
  intro v w s t hv hw h
  unfold hashMetadataValue at h
  rw [List.append_assoc, List.append_assoc] at h
  obtain ⟨hkind, hrest⟩ := commits_metadataKind h
  cases v <;> cases w <;>
    first
    | exact absurd hkind (by simp only [NativeMetadataValue.kind]; decide)
    | skip
  case null.null => exact ⟨rfl, hrest⟩
  case boolean.boolean v w =>
      obtain ⟨rfl, hst⟩ := commits_boolean hrest
      exact ⟨rfl, hst⟩
  case signed.signed v w =>
      obtain ⟨rfl, hst⟩ := commits_signed hrest
      exact ⟨rfl, hst⟩
  case unsigned.unsigned v w =>
      obtain ⟨rfl, hst⟩ := commits_u64Field (fun v : UInt64 => v) hrest
      exact ⟨rfl, hst⟩
  case floatBits.floatBits v w =>
      obtain ⟨rfl, hst⟩ := commits_u64Field (fun v : UInt64 => v) hrest
      exact ⟨rfl, hst⟩
  case text.text v w =>
      obtain ⟨rfl, hst⟩ := commits_vec hrest
      exact ⟨rfl, hst⟩
  case bytes.bytes v w =>
      obtain ⟨rfl, hst⟩ := commits_vec hrest
      exact ⟨rfl, hst⟩
  case sequence.sequence vs ws =>
      simp only [NativeMetadataValue.addressable, Bool.and_eq_true, decide_eq_true_eq] at hv hw
      simp only [List.append_assoc] at hrest
      obtain ⟨hlen, hrest⟩ := commits_length (a := ⟨vs, hv.1⟩) (b := ⟨ws, hw.1⟩) hrest
      obtain ⟨rfl, hst⟩ := hashMetadataValues_inj hlen hv.2 hw.2 hrest
      exact ⟨rfl, hst⟩
  case map.map vs ws =>
      simp only [NativeMetadataValue.addressable, Bool.and_eq_true, decide_eq_true_eq] at hv hw
      simp only [List.append_assoc] at hrest
      obtain ⟨hlen, hrest⟩ := commits_length (a := ⟨vs, hv.1⟩) (b := ⟨ws, hw.1⟩) hrest
      obtain ⟨rfl, hst⟩ := hashMetadataFields_inj hlen hv.2 hw.2 hrest
      exact ⟨rfl, hst⟩

theorem hashMetadataValues_inj : ∀ {vs ws : List NativeMetadataValue} {s t : List UInt8},
    vs.length = ws.length → addressableValues vs = true → addressableValues ws = true →
    hashMetadataValues vs ++ s = hashMetadataValues ws ++ t → vs = ws ∧ s = t
  | [], [], _, _, _, _, _, h => ⟨rfl, by simpa [hashMetadataValues] using h⟩
  | [], _ :: _, _, _, hlen, _, _, _ => by simp at hlen
  | _ :: _, [], _, _, hlen, _, _, _ => by simp at hlen
  | v :: vs, w :: ws, s, t, hlen, hv, hw, h => by
      simp only [addressableValues, Bool.and_eq_true] at hv hw
      simp only [hashMetadataValues, List.append_assoc] at h
      obtain ⟨rfl, hrest⟩ := hashMetadataValue_inj hv.1 hw.1 h
      obtain ⟨rfl, hst⟩ := hashMetadataValues_inj (by simpa using hlen) hv.2 hw.2 hrest
      exact ⟨rfl, hst⟩

theorem hashMetadataFields_inj :
    ∀ {vs ws : List (Vec UInt8 × NativeMetadataValue)} {s t : List UInt8},
    vs.length = ws.length → addressableFields vs = true → addressableFields ws = true →
    hashMetadataFields vs ++ s = hashMetadataFields ws ++ t → vs = ws ∧ s = t
  | [], [], _, _, _, _, _, h => ⟨rfl, by simpa [hashMetadataFields] using h⟩
  | [], _ :: _, _, _, hlen, _, _, _ => by simp at hlen
  | _ :: _, [], _, _, hlen, _, _, _ => by simp at hlen
  | (n, v) :: vs, (m, w) :: ws, s, t, hlen, hv, hw, h => by
      simp only [addressableFields, Bool.and_eq_true] at hv hw
      simp only [hashMetadataFields, List.append_assoc] at h
      obtain ⟨rfl, hvalue⟩ := commits_vec h
      obtain ⟨rfl, hrest⟩ := hashMetadataValue_inj hv.1 hw.1 hvalue
      obtain ⟨rfl, hst⟩ := hashMetadataFields_inj (by simpa using hlen) hv.2 hw.2 hrest
      exact ⟨rfl, hst⟩

end

theorem commits_hashMetadata : Commits hashMetadata (fun m => m) := by
  rintro ⟨vs, hvs, hv⟩ ⟨ws, hws, hw⟩ s t h
  simp only [hashMetadata, List.append_assoc] at h
  obtain ⟨hlen, hrest⟩ := commits_length (a := ⟨vs, hvs⟩) (b := ⟨ws, hws⟩) h
  obtain ⟨rfl, hst⟩ := hashMetadataFields_inj hlen hv hw hrest
  exact ⟨rfl, hst⟩

/-! ## Record, timestamps and hints -/

theorem RecordBytes.eq_of_parts {r r' : RecordBytes} (hp : r.payload = r'.payload)
    (ht : r.terminator = r'.terminator) : r = r' := by
  cases r <;> cases r' <;>
    simp only [payload, terminator, reduceCtorEq, Option.some.injEq] at hp ht
  case framed.framed p t p' t' => rw [Vec.ext hp, Vec.ext ht]
  case whole.whole p p' => rw [Vec.ext hp]

theorem commits_record :
    Commits (fun r : RecordBytes => field r.payload ++ optionalField r.terminator)
      (fun r => r) := by
  have hterm : ∀ (r : RecordBytes) (v : List UInt8), r.terminator = some v →
      v.length < 2 ^ 64 := by
    intro r v hv
    cases r with
    | framed p t =>
        obtain rfl := Option.some.inj hv
        exact t.length_lt_u64
    | whole p => cases hv
  refine ((commits_field (f := RecordBytes.payload)
    fun r => Nat.lt_trans r.payloadLen_lt (by decide)).append
    (commits_optionalField (f := RecordBytes.terminator) hterm)).map ?_
  intro r r' h
  exact RecordBytes.eq_of_parts (congrArg Prod.fst h) (congrArg Prod.snd h)

theorem commits_optionalI128 : Commits optionalI128 (fun t => t) :=
  (commits_marked commits_i128Field).map fun _ _ h => by simpa using h

/-- The raw spelling and the parse of an optional source timestamp. -/
theorem sourceTimestamp_eq_of_parts : ∀ {x y : Option SourceTimestamp},
    x.map SourceTimestamp.raw = y.map SourceTimestamp.raw →
    x.bind SourceTimestamp.parsed = y.bind SourceTimestamp.parsed → x = y
  | none, none, _, _ => rfl
  | none, some _, hraw, _ => by cases hraw
  | some _, none, hraw, _ => by cases hraw
  | some ⟨r, p⟩, some ⟨r', p'⟩, hraw, hparsed => by
      obtain rfl : r = r' := Option.some.inj hraw
      obtain rfl : p = p' := hparsed
      rfl

theorem commits_timestamps :
    Commits (fun t : EnvelopeTimestamps =>
      optionalField (t.source.map fun value => value.raw.asBytes)
        ++ optionalI128 (t.source.bind fun value => value.parsed)
        ++ optionalI128 t.providerObservedAt
        ++ optionalI128 t.adapterEmittedAt
        ++ marked (fun value => field (leBytes 8 value.get.toNat)) t.adapterMonotonicTime)
      (fun t => t) := by
  have hraw : Commits (fun t : EnvelopeTimestamps =>
      optionalField (t.source.map fun value => value.raw.asBytes))
      (fun t => t.source.map SourceTimestamp.raw) := by
    have h := commits_optionalOpaqueBytes.comp
      fun t : EnvelopeTimestamps => t.source.map SourceTimestamp.raw
    simpa only [Option.map_map, Function.comp_def] using h
  have hmono : Commits (fun value : MonotonicTimestampNanos =>
      field (leBytes 8 value.get.toNat)) (fun value => value) :=
    (commits_u64Field MonotonicTimestampNanos.get).map fun a b h => by
      cases a; cases b; cases h; rfl
  have hpieces := hraw
    |>.append (commits_optionalI128.comp fun t => t.source.bind SourceTimestamp.parsed)
    |>.append (commits_optionalI128.comp EnvelopeTimestamps.providerObservedAt)
    |>.append (commits_optionalI128.comp EnvelopeTimestamps.adapterEmittedAt)
    |>.append ((commits_marked hmono).comp EnvelopeTimestamps.adapterMonotonicTime)
  refine hpieces.map ?_
  rintro ⟨s, p, e, m⟩ ⟨s', p', e', m'⟩ h
  simp only [Prod.mk.injEq, Option.map_id'] at h
  obtain ⟨⟨⟨⟨hraw, hparsed⟩, rfl⟩, rfl⟩, rfl⟩ := h
  rw [sourceTimestamp_eq_of_parts hraw hparsed]

/-- The hint as far as its code determines it. -/
def RecordFormatHint.coded : RecordFormatHint → RecordFormatHint
  | .otherVersioned _ _ => .otherVersioned 0 0
  | hint => hint

def EncodingHint.coded : EncodingHint → EncodingHint
  | .otherVersioned _ _ => .otherVersioned 0 0
  | hint => hint

def RecordHints.coded (hints : RecordHints) : RecordHints where
  format := hints.format.map RecordFormatHint.coded
  encoding := hints.encoding.map EncodingHint.coded

/-- An absent hint is an empty field, which is no hint's code. -/
theorem commits_optionalCode {α : Type*} (code : α → String) (coded : α → α)
    (hlen : ∀ a, 0 < (asciiBytes (code a)).length ∧ (asciiBytes (code a)).length < 2 ^ 64)
    (hcoded : ∀ a b, asciiBytes (code a) = asciiBytes (code b) → coded a = coded b) :
    Commits (fun o : Option α => field (o.elim [] fun value => asciiBytes (code value)))
      (Option.map coded) := by
  refine (commits_field (f := fun o : Option α =>
    o.elim [] fun value => asciiBytes (code value)) ?_).map ?_
  · rintro (_ | a)
    · exact Nat.two_pow_pos 64
    · exact (hlen a).2
  · rintro (_ | a) (_ | b) h
    · rfl
    · exact absurd (congrArg List.length h) (hlen b).1.ne
    · exact absurd (congrArg List.length h) (hlen a).1.ne'
    · exact congrArg some (hcoded a b h)

theorem commits_hints :
    Commits (fun h : RecordHints =>
      field (h.format.elim [] fun value => asciiBytes value.code)
        ++ field (h.encoding.elim [] fun value => asciiBytes value.code))
      RecordHints.coded := by
  have hformat := commits_optionalCode RecordFormatHint.code RecordFormatHint.coded
    (by intro a; cases a <;> (simp only [RecordFormatHint.code]; decide))
    (by intro a b
        cases a <;> cases b <;>
          simp only [RecordFormatHint.coded, RecordFormatHint.code] <;> decide)
  have hencoding := commits_optionalCode EncodingHint.code EncodingHint.coded
    (by intro a; cases a <;> (simp only [EncodingHint.code]; decide))
    (by intro a b
        cases a <;> cases b <;>
          simp only [EncodingHint.coded, EncodingHint.code] <;> decide)
  refine ((hformat.comp RecordHints.format).append
    (hencoding.comp RecordHints.encoding)).map ?_
  intro a b h
  simp only [Prod.mk.injEq] at h
  simp only [RecordHints.coded, h.1, h.2]

/-! ## Envelopes and batches -/

/-- The envelope as far as the digest looks at it. -/
def RawEnvelopeV1.coded (e : RawEnvelopeV1) : RawEnvelopeV1 :=
  { e with state := e.state.coded, hints := e.hints.coded }

section Digests

variable [Sha256]

theorem commits_hashBatchEnvelope :
    Commits hashBatchEnvelope (fun e => (sourceRecordId e, e.record, e.timestamps,
      e.metadata, e.providerAttestations, e.hints.coded)) := by
  have hpieces := (commits_id.comp sourceRecordId)
    |>.append (commits_record.comp RawEnvelopeV1.record)
    |>.append (commits_timestamps.comp RawEnvelopeV1.timestamps)
    |>.append ((commits_marked commits_hashMetadata).comp RawEnvelopeV1.metadata)
    |>.append (commits_counted (f := fun e : RawEnvelopeV1 => e.providerAttestations.entries)
      commits_hashAttestation
      fun e => Nat.lt_of_le_of_lt e.providerAttestations.length_le (by decide))
    |>.append (commits_hints.comp RawEnvelopeV1.hints)
  have hbytes : hashBatchEnvelope = fun e =>
      field (sourceRecordId e).asBytes
        ++ (field e.record.payload ++ optionalField e.record.terminator)
        ++ (optionalField (e.timestamps.source.map fun value => value.raw.asBytes)
          ++ optionalI128 (e.timestamps.source.bind fun value => value.parsed)
          ++ optionalI128 e.timestamps.providerObservedAt
          ++ optionalI128 e.timestamps.adapterEmittedAt
          ++ marked (fun value => field (leBytes 8 value.get.toNat))
            e.timestamps.adapterMonotonicTime)
        ++ marked hashMetadata e.metadata
        ++ counted hashAttestation e.providerAttestations.entries
        ++ (field (e.hints.format.elim [] fun value => asciiBytes value.code)
          ++ field (e.hints.encoding.elim [] fun value => asciiBytes value.code)) := by
    funext e
    simp only [hashBatchEnvelope, List.append_assoc]
  rw [hbytes]
  refine hpieces.map ?_
  intro e e' h
  simp only [Prod.mk.injEq, List.map_id', Option.map_id'] at h
  obtain ⟨⟨⟨⟨⟨hid, hrecord⟩, htimes⟩, hmeta⟩, hatt⟩, hhints⟩ := h
  rw [hid, hrecord, htimes, hmeta, ProviderAttestationsV1.ext hatt, hhints]

theorem ends_batchPreimage :
    Ends (fun x : ExecutionContext × UInt64 × Vec RawEnvelopeV1 =>
        batchPreimage x.1 x.2.1 x.2.2.toList)
      (fun x => (x.1.fetchIdentity.retrievalId, x.2.1,
        x.2.2.toList.map fun e => (sourceRecordId e, e.record, e.timestamps,
          e.metadata, e.providerAttestations, e.hints.coded))) := by
  have hpieces :=
    commits_constField (α := ExecutionContext × UInt64 × Vec RawEnvelopeV1)
      (asciiBytes "evidentrail/ingest/envelope-batch/v1") (by decide)
    |>.append (commits_id.comp fun x => x.1.fetchIdentity.retrievalId)
    |>.append (commits_u64Field fun x => x.2.1)
    |>.append (commits_counted (f := fun x => x.2.2.toList) commits_hashBatchEnvelope
      fun x => x.2.2.length_lt_u64)
  refine hpieces.ends.map ?_
  rintro x y h
  simp only [Prod.mk.injEq, true_and] at h
  rw [h.1.1, h.1.2, h.2]

end Digests

/-- Equal digest entries are of envelopes that agree up to codes, once
the source-record identity is read back. -/
theorem RawEnvelopeV1.coded_eq_of_parts {e e' : RawEnvelopeV1}
    (hfacts : e.hashedFacts.coded = e'.hashedFacts.coded) (hrecord : e.record = e'.record)
    (htimes : e.timestamps = e'.timestamps) (hmeta : e.metadata = e'.metadata)
    (hatt : e.providerAttestations = e'.providerAttestations)
    (hhints : e.hints.coded = e'.hints.coded) : e.coded = e'.coded := by
  simp only [hashedFacts, HashedEnvelopeFacts.coded, HashedEnvelopeFacts.mk.injEq] at hfacts
  obtain ⟨-, hidentity, hordering, hnative, hcursor, hstate⟩ := hfacts
  simp only [coded, hidentity, hordering, hnative, hcursor, hstate, hrecord, htimes, hmeta,
    hatt, hhints]

theorem RawEnvelopeV1.hashedFacts_coded_congr {e e' : RawEnvelopeV1}
    (h : e.coded = e'.coded) : e.hashedFacts.coded = e'.hashedFacts.coded := by
  simp only [coded, mk.injEq] at h
  simp only [hashedFacts, HashedEnvelopeFacts.coded, contractVersion, h]

theorem RecordFormatHint.code_congr {a b : RecordFormatHint} (h : a.coded = b.coded) :
    a.code = b.code := by
  cases a <;> cases b <;> first | rfl | cases h

theorem EncodingHint.code_congr {a b : EncodingHint} (h : a.coded = b.coded) :
    a.code = b.code := by
  cases a <;> cases b <;> first | rfl | cases h

theorem optionalCode_congr {α : Type*} {code : α → String} {coded : α → α}
    (hcode : ∀ {a b}, coded a = coded b → code a = code b) :
    ∀ {x y : Option α}, x.map coded = y.map coded →
      x.elim [] (fun value => asciiBytes (code value)) =
        y.elim [] (fun value => asciiBytes (code value))
  | none, none, _ => rfl
  | none, some _, h => by cases h
  | some _, none, h => by cases h
  | some a, some b, h => congrArg asciiBytes (hcode (Option.some.inj h))

theorem hashBatchEnvelope_congr [Sha256] {e e' : RawEnvelopeV1} (h : e.coded = e'.coded) :
    hashBatchEnvelope e = hashBatchEnvelope e' := by
  have hid : sourceRecordId e = sourceRecordId e' :=
    congrArg (fun p => HashId.fromBytes (Sha256.digest p))
      (sourceRecordPreimage_congr (RawEnvelopeV1.hashedFacts_coded_congr h))
  simp only [RawEnvelopeV1.coded, RawEnvelopeV1.mk.injEq, RecordHints.coded,
    RecordHints.mk.injEq] at h
  obtain ⟨-, -, -, -, hrecord, -, htimes, hmeta, hatt, hformat, hencoding⟩ := h
  simp only [hashBatchEnvelope, hid, hrecord, htimes, hmeta, hatt,
    optionalCode_congr RecordFormatHint.code_congr hformat,
    optionalCode_congr EncodingHint.code_congr hencoding]

theorem flatMap_congr_of_map {α β γ : Type*} {f : α → β} {g : α → List γ}
    (h : ∀ {a b}, f a = f b → g a = g b) :
    ∀ {xs ys : List α}, xs.map f = ys.map f → xs.flatMap g = ys.flatMap g
  | [], [], _ => rfl
  | [], _ :: _, hxy => by cases hxy
  | _ :: _, [], hxy => by cases hxy
  | x :: xs, y :: ys, hxy => by
      obtain ⟨hhead, htail⟩ := List.cons.inj hxy
      rw [List.flatMap_cons, List.flatMap_cons, h hhead, flatMap_congr_of_map h htail]

theorem batchPreimage_congr [Sha256] {context context' : ExecutionContext} {ordinal : UInt64}
    {envelopes envelopes' : List RawEnvelopeV1}
    (hid : context.fetchIdentity.retrievalId = context'.fetchIdentity.retrievalId)
    (h : envelopes.map RawEnvelopeV1.coded = envelopes'.map RawEnvelopeV1.coded) :
    batchPreimage context ordinal envelopes = batchPreimage context' ordinal envelopes' := by
  have hlen : envelopes.length = envelopes'.length := by
    simpa using congrArg List.length h
  simp only [batchPreimage, hid, counted, hlen,
    flatMap_congr_of_map (fun hxy => hashBatchEnvelope_congr hxy) h]

/-! ## The digest identifies the batch -/

section Accepted

variable [Sha256]

namespace EnvelopeBatchV1

/-- The batches agree in everything but the numbers of versioned format
hints, encoding hints or fragment reasons, and differ there. -/
def DiffersInVersionsOnly (b b' : EnvelopeBatchV1) : Prop :=
  b.ordinal = b'.ordinal ∧
    b.envelopes.toList.map RawEnvelopeV1.coded = b'.envelopes.toList.map RawEnvelopeV1.coded ∧
    b.envelopes ≠ b'.envelopes

end EnvelopeBatchV1

/-- The envelopes agree up to codes when their digest entries do. -/
theorem map_coded_eq {S : Set (List UInt8)} (hS : Set.InjOn Sha256.digest S) :
    ∀ {es es' : List RawEnvelopeV1},
      (∀ e ∈ es, sourceRecordPreimage e ∈ S) → (∀ e ∈ es', sourceRecordPreimage e ∈ S) →
      es.map (fun e => (sourceRecordId e, e.record, e.timestamps, e.metadata,
        e.providerAttestations, e.hints.coded)) =
        es'.map (fun e => (sourceRecordId e, e.record, e.timestamps, e.metadata,
          e.providerAttestations, e.hints.coded)) →
      es.map RawEnvelopeV1.coded = es'.map RawEnvelopeV1.coded
  | [], [], _, _, _ => rfl
  | [], _ :: _, _, _, h => by cases h
  | _ :: _, [], _, _, h => by cases h
  | e :: es, e' :: es', hes, hes', h => by
      obtain ⟨hhead, htail⟩ := List.cons.inj h
      simp only [Prod.mk.injEq] at hhead
      obtain ⟨hid, hrecord, htimes, hmeta, hatt, hhints⟩ := hhead
      have hpre := hS (hes e (List.mem_cons_self ..)) (hes' e' (List.mem_cons_self ..))
        (congrArg HashId.digest hid)
      have hcoded := RawEnvelopeV1.coded_eq_of_parts (commits_sourceRecordPreimage.ends hpre)
        hrecord htimes hmeta hatt hhints
      have hrest := map_coded_eq hS (fun x hx => hes x (List.mem_cons_of_mem _ hx))
        (fun x hx => hes' x (List.mem_cons_of_mem _ hx)) htail
      rw [List.map_cons, List.map_cons, hcoded, hrest]

/-- Where SHA-256 does not collide on what the two batches hash, equal
digests are of the same retrieval, ordinal and envelopes, for all pairs
of accepted batches but those that differ in the numbers of versioned
hints or fragment reasons only; these always share their digest. -/
theorem batch_digest_identifies_iff {S : Set (List UInt8)}
    (hS : Set.InjOn Sha256.digest S) {context context' : ExecutionContext}
    {ordinal ordinal' : UInt64} {envelopes envelopes' : Vec RawEnvelopeV1}
    {batch batch' : EnvelopeBatchV1}
    (hnew : EnvelopeBatchV1.new context ordinal envelopes = .ok batch)
    (hnew' : EnvelopeBatchV1.new context' ordinal' envelopes' = .ok batch')
    (hbatch : batchPreimage context ordinal envelopes.toList ∈ S)
    (hbatch' : batchPreimage context' ordinal' envelopes'.toList ∈ S)
    (hrecords : ∀ e ∈ envelopes.toList, sourceRecordPreimage e ∈ S)
    (hrecords' : ∀ e ∈ envelopes'.toList, sourceRecordPreimage e ∈ S) :
    (batch.canonicalDigest = batch'.canonicalDigest →
      context.fetchIdentity.retrievalId = context'.fetchIdentity.retrievalId ∧
        ordinal = ordinal' ∧ envelopes.length = envelopes'.length ∧ envelopes = envelopes') ↔
      ¬ batch.DiffersInVersionsOnly batch' := by
  obtain ⟨hne, hidentity, rfl⟩ := EnvelopeBatchV1.new_eq_ok hnew
  obtain ⟨hne', hidentity', rfl⟩ := EnvelopeBatchV1.new_eq_ok hnew'
  simp only [EnvelopeBatchV1.DiffersInVersionsOnly]
  constructor
  · rintro hcommit ⟨rfl, hcoded, hdiffer⟩
    -- the first envelopes carry the two contexts
    have hcontext : context.fetchIdentity.retrievalId = context'.fetchIdentity.retrievalId := by
      obtain ⟨e, es, he⟩ := List.exists_cons_of_ne_nil hne
      obtain ⟨e', es', he'⟩ := List.exists_cons_of_ne_nil hne'
      rw [he, he'] at hcoded
      have hhead := congrArg (fun x => x.identity.retrievalId) (List.cons.inj hcoded).1
      simp only [RawEnvelopeV1.coded] at hhead
      rw [hidentity e (he ▸ List.mem_cons_self ..),
        hidentity' e' (he' ▸ List.mem_cons_self ..)] at hhead
      exact hhead
    exact hdiffer (hcommit (congrArg Sha256.digest
      (batchPreimage_congr hcontext hcoded))).2.2.2
  · intro hkeeps hdigest
    have hpre := hS hbatch hbatch' hdigest
    have hkey := ends_batchPreimage (a := (context, ordinal, envelopes))
      (b := (context', ordinal', envelopes')) hpre
    simp only [Prod.mk.injEq] at hkey
    obtain ⟨hid, rfl, hentries⟩ := hkey
    have hcoded := map_coded_eq hS hrecords hrecords' hentries
    have heq : envelopes = envelopes' := by
      by_contra hdiffer
      exact hkeeps ⟨rfl, hcoded, hdiffer⟩
    exact ⟨hid, rfl, congrArg Vec.length heq, heq⟩

end Accepted

/-! ## Concrete batches -/

def replayContext : ExecutionContext where
  fetchIdentity := ⟨.repeated 1, .repeated 2, .repeated 3, replayAdapter⟩
  sourceIdentityDigest := .repeated 4

/-- One empty record with one format hint. -/
def hintedBatch (hint : RecordFormatHint) : Vec RawEnvelopeV1 :=
  .singleton { replayEnvelope 0 (.whole .empty) .complete with hints := { format := some hint } }

theorem hintedBatch_new [Sha256] (ordinal : UInt64) (hint : RecordFormatHint) :
    EnvelopeBatchV1.new replayContext ordinal (hintedBatch hint) =
      .ok ⟨Sha256.digest (batchOperationPreimage replayContext ordinal), ordinal,
        canonicalBatchDigest replayContext ordinal (hintedBatch hint).toList,
        hintedBatch hint⟩ :=
  rfl

/-- A line with a trace id that the provider attests, a format hint, and a value
inside a list inside a map. -/
def nestedEnvelope (value : NativeMetadataValue) (hint : RecordFormatHint)
    (h : value.addressable = true) : RawEnvelopeV1 :=
  { replayEnvelope 0 (.framed ⟨[104, 105], by decide⟩ (.singleton 10)) .complete with
    metadata := some {
      fields :=
        [(.singleton 107, .map [(.singleton 97, .sequence [value, .null, .text (.singleton 104)]),
          (.singleton 98, .bytes ⟨[0, 1], by decide⟩)])]
      length_lt := by simp
      addressable := by simp [addressableFields, addressableValues,
        NativeMetadataValue.addressable, h] }
    providerAttestations := {
      entries :=
        [⟨.repeated 1, .traceIdentity, .adapterNativeField, ⟨.singleton 84, by decide, by decide⟩⟩,
          ⟨.repeated 1, .hostIdentity, .adapterNativeField, ⟨.singleton 72, by decide, by decide⟩⟩]
      sorted := by decide
      length_le := by decide }
    hints := { format := some hint } }

/-- Such a line and a fragment of the next one. -/
def nestedBatch (value : NativeMetadataValue) (hint : RecordFormatHint)
    (h : value.addressable = true) : Vec RawEnvelopeV1 :=
  ⟨[nestedEnvelope value hint h,
    replayEnvelope 1 (.whole (.singleton 104)) (.adapterFragment .sourceByteCap)], by simp⟩

theorem nestedBatch_new [Sha256] (value : NativeMetadataValue) (hint : RecordFormatHint)
    (h : value.addressable = true) :
    EnvelopeBatchV1.new replayContext 0 (nestedBatch value hint h) =
      .ok ⟨Sha256.digest (batchOperationPreimage replayContext 0), 0,
        canonicalBatchDigest replayContext 0 (nestedBatch value hint h).toList,
        nestedBatch value hint h⟩ :=
  rfl

/-- Of the three batches the first two differ deep in the metadata, and their
digests with them. The last two differ in the code number of the hint, and share
their digest. -/
theorem batch_digest_identifies_iff_nested :
    letI := fips180
    ∃ signed unsigned renamed,
      EnvelopeBatchV1.new replayContext 0 (nestedBatch (.signed 7) (.otherVersioned 1 1) rfl) =
        .ok signed ∧
      EnvelopeBatchV1.new replayContext 0 (nestedBatch (.unsigned 7) (.otherVersioned 1 1) rfl) =
        .ok unsigned ∧
      EnvelopeBatchV1.new replayContext 0 (nestedBatch (.unsigned 7) (.otherVersioned 1 2) rfl) =
        .ok renamed ∧
      (signed.canonicalDigest ≠ unsigned.canonicalDigest ∧
        ¬signed.DiffersInVersionsOnly unsigned) ∧
      unsigned.canonicalDigest = renamed.canonicalDigest ∧
        unsigned.DiffersInVersionsOnly renamed := by
  rw [fips180_eq]
  let := fips180Evaluated
  let first := (nestedBatch (.signed 7) (.otherVersioned 1 1) rfl).toList
  let second := (nestedBatch (.unsigned 7) (.otherVersioned 1 1) rfl).toList
  -- what the batches hash; the last two share a preimage
  let hashed := [batchPreimage replayContext 0 first, batchPreimage replayContext 0 second] ++
    first.map sourceRecordPreimage
  have hnodup : (hashed.map Sha256.digest).Nodup := by decide +kernel
  have hinjective : Set.InjOn Sha256.digest {message | message ∈ hashed} :=
    List.inj_on_of_nodup_map hnodup
  have hbatch : batchPreimage replayContext 0 first ∈ hashed := List.mem_cons_self ..
  have hbatch' : batchPreimage replayContext 0 second ∈ hashed :=
    List.mem_cons_of_mem _ (List.mem_cons_self ..)
  have hrecords : ∀ es : List RawEnvelopeV1,
      es.map sourceRecordPreimage = first.map sourceRecordPreimage →
        ∀ e ∈ es, sourceRecordPreimage e ∈ hashed := fun es hes e he =>
    List.mem_append_right _ (hes ▸ List.mem_map_of_mem he)
  have hdigests : Sha256.digest (batchPreimage replayContext 0 first) ≠
      Sha256.digest (batchPreimage replayContext 0 second) := by decide +kernel
  have hshared : batchPreimage replayContext 0 second = batchPreimage replayContext 0
      (nestedBatch (.unsigned 7) (.otherVersioned 1 2) rfl).toList := batchPreimage_congr rfl rfl
  have hrenamed : nestedBatch (.unsigned 7) (.otherVersioned 1 1) rfl ≠
      nestedBatch (.unsigned 7) (.otherVersioned 1 2) rfl := fun h =>
    absurd (congrArg (fun batch => batch.toList.map RawEnvelopeV1.hints) h)
      (by simp [nestedBatch, nestedEnvelope])
  have hkept := batch_digest_identifies_iff hinjective
    (nestedBatch_new (.signed 7) (.otherVersioned 1 1) rfl)
    (nestedBatch_new (.unsigned 7) (.otherVersioned 1 1) rfl) hbatch hbatch' (hrecords _ rfl)
    (hrecords _ rfl)
  have hlost := batch_digest_identifies_iff hinjective
    (nestedBatch_new (.unsigned 7) (.otherVersioned 1 1) rfl)
    (nestedBatch_new (.unsigned 7) (.otherVersioned 1 2) rfl) hbatch' (hshared ▸ hbatch')
    (hrecords _ rfl) (hrecords _ rfl)
  refine ⟨_, _, _, nestedBatch_new _ _ _, nestedBatch_new _ _ _, nestedBatch_new _ _ _,
    ⟨hdigests, hkept.mp fun h => absurd h hdigests⟩, congrArg Sha256.digest hshared, ?_⟩
  by_contra hdiffers
  exact hrenamed (hlost.mpr hdiffers (congrArg Sha256.digest hshared)).2.2.2

/-- Two accepted batches under one operation id, the same but for the
code number of a versioned format hint. -/
theorem versioned_hints_share_digest :
    letI := fips180
    ∃ batch batch',
      EnvelopeBatchV1.new replayContext 0 (hintedBatch (.otherVersioned 1 1)) = .ok batch ∧
      EnvelopeBatchV1.new replayContext 0 (hintedBatch (.otherVersioned 1 2)) = .ok batch' ∧
      batch.operationId = batch'.operationId ∧
      batch.canonicalDigest = batch'.canonicalDigest ∧
      batch.envelopes.toList.map (fun e => e.hints) ≠
        batch'.envelopes.toList.map (fun e => e.hints) := by
  let := fips180
  refine ⟨_, _, hintedBatch_new 0 _, hintedBatch_new 0 _, rfl, ?_, by decide⟩
  exact congrArg Sha256.digest (batchPreimage_congr rfl rfl)

end Evidentrail
