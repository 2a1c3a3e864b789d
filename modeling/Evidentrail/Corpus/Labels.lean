import Evidentrail.Corpus.Learning
import Evidentrail.Lib.Encoding
import Mathlib.Data.List.Perm.Basic
import Mathlib.Data.List.Dedup

/-!
# What the labels of a case share

`Labelled` says what stands behind every label: its task, which all labels of
the case share, and the terms of that task, which are all the terms the case
has. So the digest of the task decides the terms, and the fingerprint, which
reads only the digest, decides every bonus (`bonus_of_fingerprint`).

A held-out label is of a case that has no development labels, so it touches
neither (`heldOut_silent`).
-/

namespace Evidentrail

open Rust Bytes Encoding

/-! ## The terms of a trimmed task -/

theorem not_alphanum_of_whiteSpace {c : Char} (h : isWhiteSpace c = true) :
    c.isAlphanum = false := by
  have halpha : c.isAlpha = (c.isUpper || c.isLower) := rfl
  have hupper : c.isUpper = decide (65 ≤ c.val.toNat ∧ c.val.toNat ≤ 90) := rfl
  have hlower : c.isLower = (decide (97 ≤ c.val.toNat) && decide (c.val.toNat ≤ 122)) := rfl
  have hdigit : c.isDigit = (decide (48 ≤ c.val.toNat) && decide (c.val.toNat ≤ 57)) := rfl
  simp only [isWhiteSpace, Bool.or_eq_true, Bool.and_eq_true, decide_eq_true_eq, beq_iff_eq] at h
  simp only [Char.isAlphanum, halpha, hupper, hlower, hdigit, Bool.or_eq_false_iff,
    Bool.and_eq_false_iff, decide_eq_false_iff_not, Char.toNat] at h ⊢
  omega

section Pieces

variable {α : Type*} {separates blank : α → Bool} {keeps : List α → Bool}

/-- Separators at the front only add empty pieces. -/
theorem filter_splitOnP_dropWhile (hblank : ∀ a, blank a = true → separates a = true)
    (hempty : keeps [] = false) (l : List α) :
    ((l.dropWhile blank).splitOnP separates).filter keeps =
      (l.splitOnP separates).filter keeps := by
  induction l with
  | nil => rfl
  | cons a rest ih =>
      by_cases ha : blank a = true
      · rw [List.dropWhile_cons_of_pos ha, ih, List.splitOnP_cons_eq_if_modifyHead,
          if_pos (hblank a ha), List.filter_cons_of_neg (by simp [hempty])]
      · rw [List.dropWhile_cons_of_neg ha]

/-- Separators at the end only add empty pieces. -/
theorem filter_splitOnP_dropWhile_end (hblank : ∀ a, blank a = true → separates a = true)
    (hempty : keeps [] = false) (l : List α) :
    ((l.reverse.dropWhile blank).reverse.splitOnP separates).filter keeps =
      (l.splitOnP separates).filter keeps := by
  induction l using List.reverseRecOn with
  | nil => rfl
  | append_singleton rest a ih =>
      rw [List.reverse_append, List.reverse_singleton, List.singleton_append]
      by_cases ha : blank a = true
      · rw [List.dropWhile_cons_of_pos ha, ih, List.splitOnP_append_cons _ _ (hblank a ha),
          List.filter_append, List.splitOnP_nil, List.filter_cons_of_neg (by simp [hempty]),
          List.filter_nil, List.append_nil]
      · rw [List.dropWhile_cons_of_neg ha, List.reverse_cons, List.reverse_reverse]

end Pieces

/-- Trimming a task loses none of its terms. -/
theorem searchTerms_trim (task : String) (cap : Nat) :
    searchTerms (trim task) cap = searchTerms task cap := by
  have hblank : ∀ c : Char, isWhiteSpace c = true → (!c.isAlphanum) = true := by
    intro c hc
    rw [not_alphanum_of_whiteSpace hc, Bool.not_false]
  simp only [searchTerms, trim, String.toList_ofList]
  rw [filter_splitOnP_dropWhile_end hblank (by rfl), filter_splitOnP_dropWhile hblank (by rfl)]

theorem trim_of_taskPreimage {task task' : String} (h : taskPreimage task = taskPreimage task') :
    trim task = trim task' :=
  Utf8.asBytes_inj.mp (List.append_cancel_left h)

theorem taskTermDigests_of_trim [Sha256] {task task' : String} (h : trim task = trim task') :
    taskTermDigests task = taskTermDigests task' := by
  unfold taskTermDigests
  rw [← searchTerms_trim task, h, searchTerms_trim task']

namespace LearningStore

/-! ## Labels and their terms -/

theorem mem_upsertLabel {labels : List IndependentLabel} {row label : IndependentLabel}
    (h : label ∈ upsertLabel labels row) :
    label ∈ labels ∨ (label.caseId = row.caseId ∧ label.split = row.split ∧
      label.parserVersion = row.parserVersion ∧
      (label.taskDigest = row.taskDigest ∨
        ∃ old ∈ labels, old.caseId = row.caseId ∧ label.taskDigest = old.taskDigest)) := by
  unfold upsertLabel at h
  dsimp only at h
  split at h
  · rcases Table.mem_update.mp h with ⟨hold, _⟩ | ⟨old, hold, hkey, rfl⟩
    · exact .inl hold
    · have hcase : old.caseId = row.caseId := congrArg Prod.fst hkey
      exact .inr ⟨hcase, rfl, rfl, .inr ⟨old, hold, hcase, rfl⟩⟩
  · rcases List.mem_append.mp h with hold | hnew
    · exact .inl hold
    · rw [List.mem_singleton.mp hnew]
      exact .inr ⟨rfl, rfl, rfl, .inl rfl⟩

/-- A held-out label of a case that has no other labels. -/
theorem developmentLabels_upsert {labels : List IndependentLabel} {row : IndependentLabel}
    (hrow : row.split = .heldOut)
    (hcase : ∀ old ∈ labels, old.caseId = row.caseId → old.split = .heldOut) :
    (upsertLabel labels row).filter (fun label => label.split = .development) =
      labels.filter fun label => label.split = .development := by
  unfold upsertLabel
  dsimp only
  split
  · refine Table.filter_update fun old hold hkey => ?_
    rw [hcase old hold (congrArg Prod.fst hkey), hrow]
    exact ⟨rfl, rfl⟩
  · rw [List.filter_append, List.filter_cons_of_neg (by simp [hrow]), List.filter_nil,
      List.append_nil]

theorem mem_insertTerms {caseId : CaseId} {rows : List (CaseId × Digest)}
    {digests : List Digest} {row : CaseId × Digest} :
    row ∈ insertTerms caseId rows digests ↔ row ∈ rows ∨ row.1 = caseId ∧ row.2 ∈ digests := by
  unfold insertTerms
  induction digests generalizing rows with
  | nil => simp
  | cons digest rest ih =>
      rw [List.foldl_cons, ih]
      obtain ⟨case, term⟩ := row
      by_cases hmem : (caseId, digest) ∈ rows
      · rw [if_pos hmem]
        constructor
        · rintro (hrow | ⟨hcase, hterm⟩)
          · exact .inl hrow
          · exact .inr ⟨hcase, List.mem_cons_of_mem _ hterm⟩
        · rintro (hrow | ⟨hcase, hterm⟩)
          · exact .inl hrow
          · rcases List.mem_cons.mp hterm with hfirst | hlater
            · refine .inl ?_
              rw [show case = caseId from hcase, show term = digest from hfirst]
              exact hmem
            · exact .inr ⟨hcase, hlater⟩
      · rw [if_neg hmem]
        simp only [List.mem_append, Prod.mk.injEq, List.mem_cons]
        tauto

/-! ## What the fingerprint commits to -/

theorem commits_framed {α : Type*} {f : α → List UInt8} (hf : ∀ a, (f a).length < 2 ^ 64) :
    Commits (fun a => framed (f a)) f := by
  intro a b s t hab
  simp only [framed, List.append_assoc] at hab
  obtain ⟨hlength, hrest⟩ := List.append_inj hab (by simp)
  exact List.append_inj hrest (beBytes_inj (hf a) (hf b) hlength)

/-- What a row of the query says of a label. -/
def FingerprintRow.key (row : FingerprintRow) :=
  (((((((Utf8.asBytes row.caseId.text, row.taskDigest.bytes), row.nativeId.toList),
    row.provenanceDigest.bytes), (row.groupDigest.map Digest.bytes).getD []),
    i64Be (LearningLabel.value row.label)), i64Be row.parserVersion),
    i64Be ((row.groupId.map Int.ofNat).getD (-1)))

theorem commits_fingerprintRow : Commits FingerprintRow.bytes FingerprintRow.key := by
  have hcase : ∀ row : FingerprintRow, (Utf8.asBytes row.caseId.text).length < 2 ^ 64 := fun row =>
    Nat.lt_of_le_of_lt row.caseId.length_le (by decide)
  have hdigest : ∀ digest : Digest, digest.bytes.length < 2 ^ 64 := fun digest => by
    rw [digest.length_eq]
    decide
  have hgroup : ∀ row : FingerprintRow,
      ((row.groupDigest.map Digest.bytes).getD []).length < 2 ^ 64 := by
    intro row
    cases row.groupDigest with
    | none => exact Nat.two_pow_pos 64
    | some digest => exact hdigest digest
  have hfixed : ∀ value : FingerprintRow → Int,
      Commits (fun row => i64Be (value row)) (fun row => i64Be (value row)) := fun value =>
    commits_of_length 8 (fun _ => length_i64Be _) fun _ _ h => h
  exact (((((((commits_framed hcase).append (commits_framed fun row => hdigest _)).append
    (commits_framed fun row => row.nativeId.length_lt_u64)).append
    (commits_framed fun row => hdigest _)).append (commits_framed hgroup)).append
    (hfixed _)).append (hfixed _)).append (hfixed _)

theorem fingerprintRow_bytes_ne_nil (row : FingerprintRow) : row.bytes ≠ [] := by
  intro h
  have := congrArg List.length h
  simp [FingerprintRow.bytes, framed] at this

/-- Labels that are hashed alike are the same to a reader of the query. -/
theorem rows_of_preimage {s s' : LearningStore}
    (h : s.fingerprintPreimage = s'.fingerprintPreimage) :
    s.fingerprintRows.map FingerprintRow.key =
      s'.fingerprintRows.map FingerprintRow.key :=
  Ends.flatMap commits_fingerprintRow fingerprintRow_bytes_ne_nil (List.append_cancel_left h)

theorem groupId_inj {a b : Option Nat} (ha : ∀ id, a = some id → id ≤ i64Max)
    (hb : ∀ id, b = some id → id ≤ i64Max)
    (h : i64Be ((a.map Int.ofNat).getD (-1)) = i64Be ((b.map Int.ofNat).getD (-1))) : a = b := by
  have hrange : ∀ {o : Option Nat}, (∀ id, o = some id → id ≤ i64Max) →
      IsI64 ((o.map Int.ofNat).getD (-1)) := by
    intro o ho
    cases o with
    | none => exact ⟨by decide, by decide⟩
    | some id =>
        have hid := ho id rfl
        simp only [i64Max, IsI64, Option.map_some, Option.getD_some, Int.ofNat_eq_natCast] at hid ⊢
        omega
  have hvalue := i64Be_inj (hrange ha) (hrange hb) h
  cases a with
  | none =>
      cases b with
      | none => rfl
      | some id => simp at hvalue
  | some id =>
      cases b with
      | none => simp at hvalue
      | some id' => simpa using hvalue

/-- Group ids are those of rows. -/
def RowidGroups (t : Tables) : Prop :=
  ∀ nativeId groupId, t.memberGroup nativeId = some groupId → groupId ≤ i64Max

/-- Every development label of one store stands in the other, with its group. -/
theorem label_of_rows {s s' : LearningStore} (hgroups : RowidGroups s.tables)
    (hgroups' : RowidGroups s'.tables)
    (h : s.fingerprintRows.map FingerprintRow.key = s'.fingerprintRows.map FingerprintRow.key)
    {row : IndependentLabel} (hrow : row ∈ s.developmentLabels) :
    ∃ row' ∈ s'.developmentLabels, row'.caseId = row.caseId ∧ row'.taskDigest = row.taskDigest ∧
      row'.label = row.label ∧
      s'.tables.memberGroup row'.nativeId.toList = s.tables.memberGroup row.nativeId.toList := by
  have hmem : (fingerprintRow s.tables row).key ∈ s.fingerprintRows.map FingerprintRow.key :=
    List.mem_map_of_mem (List.mem_map_of_mem (List.mem_mergeSort.mpr hrow))
  rw [h] at hmem
  obtain ⟨found, hfound, hkey⟩ := List.mem_map.mp hmem
  obtain ⟨row', hrow', rfl⟩ := List.mem_map.mp hfound
  simp only [FingerprintRow.key, fingerprintRow, Prod.mk.injEq] at hkey
  obtain ⟨⟨⟨⟨⟨⟨⟨hcase, htask⟩, _⟩, _⟩, _⟩, hlabel⟩, _⟩, hgroup⟩ := hkey
  refine ⟨row', List.mem_mergeSort.mp hrow', ?_, Digest.ext htask, ?_, ?_⟩
  · have htext := Utf8.asBytes_inj.mp hcase
    cases hid' : row'.caseId
    cases hid : row.caseId
    simpa [hid, hid'] using htext
  · cases hl' : row'.label <;> cases hl : row.label <;> rw [hl, hl'] at hlabel
    · exact absurd hlabel (by decide)
    · exact absurd hlabel (by decide)
  · exact groupId_inj (hgroups' _) (hgroups _) hgroup

section Hashing

variable [Sha256]

/-- All labels of a case have one task and one split, and its terms are those
of the task. -/
structure Labelled (tasks : Set String) (s : LearningStore) : Prop where
  one_case : ∀ a ∈ s.labels, ∀ b ∈ s.labels, a.caseId = b.caseId →
    a.taskDigest = b.taskDigest ∧ a.split = b.split
  terms : ∀ label ∈ s.labels, ∃ task ∈ tasks,
    label.taskDigest = Sha256.digest (taskPreimage task) ∧
    ∀ digest, (label.caseId, digest) ∈ s.labelTerms ↔ digest ∈ taskTermDigests task
  parsed : ∀ label ∈ s.labels, label.parserVersion = parserIndexVersion

variable {tasks : Set String} {s s' : LearningStore} {caseText task : String}
  {nativeId : Vec UInt8} {label : LearningLabel} {split : LearningSplit}
  {provenanceDigest : Digest}

/-- What is stored by a label that is accepted. -/
theorem recordIndependentLabel_ok
    (h : s.recordIndependentLabel caseText task nativeId label split provenanceDigest = .ok s') :
    ∃ caseId : CaseId,
      (∀ old, s.labels.find? (fun row => row.caseId = caseId) = some old →
        old.taskDigest = Sha256.digest (taskPreimage task) ∧ old.split = split) ∧
      s' = { s with
        labels := upsertLabel s.labels ⟨caseId, Sha256.digest (taskPreimage task), nativeId,
          label, provenanceDigest, split, parserIndexVersion⟩
        labelTerms := insertTerms caseId (s.labelTerms.filter fun row => row.1 ≠ caseId)
          (taskTermDigests task) } := by
  unfold recordIndependentLabel at h
  obtain ⟨caseId, _, h⟩ := except_bind_eq_ok.mp h
  split at h
  · cases h
  obtain ⟨taskDigest, hdigest, h⟩ := except_bind_eq_ok.mp h
  unfold feedbackTaskDigest at hdigest
  split at hdigest
  · cases hdigest
  cases hdigest
  split at h
  · cases h
  rename_i hconflict
  split at h
  · cases h
  cases h
  refine ⟨caseId, fun old hold => ?_, rfl⟩
  simpa [conflicting, hold, not_or] using hconflict

/-- The label that decides whether a case may be labelled speaks for all. -/
theorem Labelled.agree (h : Labelled tasks s) {caseId : CaseId} {taskDigest : Digest}
    (hfirst : ∀ old, s.labels.find? (fun row => row.caseId = caseId) = some old →
      old.taskDigest = taskDigest ∧ old.split = split) :
    ∀ old ∈ s.labels, old.caseId = caseId → old.taskDigest = taskDigest ∧ old.split = split := by
  intro old hold hcase
  cases hfind : s.labels.find? fun row => row.caseId = caseId with
  | none => exact absurd hcase (by simpa using List.find?_eq_none.mp hfind old hold)
  | some found =>
      obtain ⟨hdigest, hsplit⟩ := hfirst found hfind
      have hfound : found.caseId = caseId := by simpa using List.find?_some hfind
      obtain ⟨hsame, hsame'⟩ := h.one_case old hold found (List.mem_of_find?_eq_some hfind)
        (hcase.trans hfound.symm)
      exact ⟨hsame.trans hdigest, hsame'.trans hsplit⟩

theorem Labelled.record (h : Labelled tasks s) (htask : task ∈ tasks)
    (hrecord : s.recordIndependentLabel caseText task nativeId label split provenanceDigest =
      .ok s') : Labelled tasks s' := by
  obtain ⟨caseId, hfirst, rfl⟩ := recordIndependentLabel_ok hrecord
  have hagree := h.agree hfirst
  -- a label is one from before of another case, or has the task and the split of the call
  have hlabels : ∀ row ∈ upsertLabel s.labels ⟨caseId, Sha256.digest (taskPreimage task),
      nativeId, label, provenanceDigest, split, parserIndexVersion⟩,
      row.parserVersion = parserIndexVersion ∧
      (row.caseId ≠ caseId ∧ row ∈ s.labels ∨ row.caseId = caseId ∧
        row.taskDigest = Sha256.digest (taskPreimage task) ∧ row.split = split) := by
    intro row hrow
    rcases mem_upsertLabel hrow with hold | ⟨hcase, hsplit, hparser, htaskDigest⟩
    · refine ⟨h.parsed row hold, ?_⟩
      by_cases hcase : row.caseId = caseId
      · exact .inr ⟨hcase, hagree row hold hcase⟩
      · exact .inl ⟨hcase, hold⟩
    · refine ⟨hparser, .inr ⟨hcase, ?_, hsplit⟩⟩
      rcases htaskDigest with hsame | ⟨old, hold, holdCase, hsame⟩
      · exact hsame
      · exact hsame.trans (hagree old hold holdCase).1
  refine ⟨?_, ?_, fun row hrow => (hlabels row hrow).1⟩
  · intro a ha b hb hcase
    rcases (hlabels a ha).2 with ⟨haCase, ha⟩ | ⟨haCase, haTask, haSplit⟩
    · rcases (hlabels b hb).2 with ⟨_, hb⟩ | ⟨hbCase, _, _⟩
      · exact h.one_case a ha b hb hcase
      · exact absurd (hcase.trans hbCase) haCase
    · rcases (hlabels b hb).2 with ⟨hbCase, _⟩ | ⟨_, hbTask, hbSplit⟩
      · exact absurd (hcase.symm.trans haCase) hbCase
      · exact ⟨haTask.trans hbTask.symm, haSplit.trans hbSplit.symm⟩
  · intro row hrow
    rcases (hlabels row hrow).2 with ⟨hcase, hold⟩ | ⟨hcase, hdigest, _⟩
    · obtain ⟨prior, hprior, hdigest, hterms⟩ := h.terms row hold
      refine ⟨prior, hprior, hdigest, fun digest => ?_⟩
      rw [mem_insertTerms, ← hterms digest]
      simp [hcase]
    · refine ⟨task, htask, hdigest, fun digest => ?_⟩
      rw [mem_insertTerms]
      simp [hcase]

theorem Labelled.revoke (h : Labelled tasks s) (nativeId : Vec UInt8) :
    Labelled tasks (s.revokeLearningEvidence nativeId) := by
  unfold revokeLearningEvidence
  refine ⟨?_, ?_, ?_⟩
  · intro a ha b hb
    exact h.one_case a (List.mem_of_mem_filter ha) b (List.mem_of_mem_filter hb)
  · intro row hrow
    obtain ⟨task, htask, hdigest, hterms⟩ := h.terms row (List.mem_of_mem_filter hrow)
    refine ⟨task, htask, hdigest, fun digest => ?_⟩
    rw [← hterms digest, List.mem_filter]
    simp only [decide_eq_true_eq, and_iff_left_iff_imp]
    exact fun _ => List.mem_map_of_mem hrow
  · intro row hrow
    exact h.parsed row (List.mem_of_mem_filter hrow)

/-- Nothing but labels and their terms is read. -/
theorem Labelled.congr (h : Labelled tasks s) (hlabels : s'.labels = s.labels)
    (hterms : s'.labelTerms = s.labelTerms) : Labelled tasks s' where
  one_case := by rw [hlabels]; exact h.one_case
  terms := by rw [hlabels, hterms]; exact h.terms
  parsed := by rw [hlabels]; exact h.parsed

/-! ## The fingerprint decides the bonus -/

theorem mem_bonusRows {groupId : Nat} {caseId : CaseId} :
    (groupId, caseId, label) ∈ s.bonusRows task ↔
      ∃ row ∈ s.developmentLabels, row.parserVersion = parserIndexVersion ∧
        (∃ digest, (row.caseId, digest) ∈ s.labelTerms ∧ digest ∈ taskTermDigests task) ∧
        s.tables.memberGroup row.nativeId.toList = some groupId ∧
        row.caseId = caseId ∧ row.label = label := by
  simp only [bonusRows, List.mem_dedup, List.mem_filterMap, List.mem_filter, Bool.and_eq_true,
    decide_eq_true_eq, List.any_eq_true, Option.map_eq_some_iff, Prod.mk.injEq,
    List.contains_iff_mem]
  constructor
  · rintro ⟨row, ⟨hrow, hparser, ⟨case, digest⟩, hterm, rfl, hdigest⟩, found, hfound, rfl, rfl,
      rfl⟩
    exact ⟨row, hrow, hparser, ⟨digest, hterm, hdigest⟩, hfound, rfl, rfl⟩
  · rintro ⟨row, hrow, hparser, ⟨digest, hterm, hdigest⟩, hfound, rfl, rfl⟩
    exact ⟨row, ⟨hrow, hparser, (row.caseId, digest), hterm, rfl, hdigest⟩, groupId, hfound, rfl,
      rfl, rfl⟩

/-- Rows with the same members are counted alike. -/
theorem shadowGroupBonus_congr
    (h : ∀ row, row ∈ s.bonusRows task ↔ row ∈ s'.bonusRows task)
    (cards : List CorpusGroupCard) :
    s.shadowGroupBonus task cards = s'.shadowGroupBonus task cards := by
  have hperm : (s.bonusRows task).Perm (s'.bonusRows task) :=
    (List.perm_ext_iff_of_nodup (List.nodup_dedup _) (List.nodup_dedup _)).mpr h
  have hcases : ∀ groupId label,
      (bonusCases (s.bonusRows task) groupId label).Perm
        (bonusCases (s'.bonusRows task) groupId label) := fun groupId label =>
    ((hperm.filter _).map _).dedup
  have hbonus : ∀ card, bonusOf (s.bonusRows task) card = bonusOf (s'.bonusRows task) card := by
    intro card
    have hnegative := (hcases card.groupId .irrelevant).isEmpty_eq
    simp only [bonusOf, (hcases card.groupId .relevant).length_eq, hnegative]
  unfold shadowGroupBonus
  rw [hperm.length_eq, funext hbonus]

/-- Labels that are hashed alike give the same bonus, as long as the tasks
behind them have different digests. -/
theorem mem_bonusRows_of_rows {tasks' : Set String} (h : Labelled tasks s)
    (h' : Labelled tasks' s') (hgroups : RowidGroups s.tables) (hgroups' : RowidGroups s'.tables)
    (hrows : s.fingerprintRows.map FingerprintRow.key = s'.fingerprintRows.map FingerprintRow.key)
    (hinj : ∀ a ∈ tasks, ∀ b ∈ tasks', Sha256.digest (taskPreimage a) =
      Sha256.digest (taskPreimage b) → taskPreimage a = taskPreimage b)
    {row : Nat × CaseId × LearningLabel} (hrow : row ∈ s.bonusRows task) :
    row ∈ s'.bonusRows task := by
  obtain ⟨groupId, caseId, label⟩ := row
  obtain ⟨row, hold, _, ⟨digest, hterm, hdigest⟩, hgroup, rfl, rfl⟩ := mem_bonusRows.mp hrow
  obtain ⟨row', hrow', hcase, htask, hlabel, hgroup'⟩ := label_of_rows hgroups hgroups' hrows hold
  obtain ⟨a, ha, haDigest, haTerms⟩ := h.terms row (List.mem_of_mem_filter hold)
  obtain ⟨b, hb, hbDigest, hbTerms⟩ := h'.terms row' (List.mem_of_mem_filter hrow')
  have hpreimage := hinj a ha b hb (by rw [← haDigest, ← hbDigest, htask])
  have hterms := taskTermDigests_of_trim (trim_of_taskPreimage hpreimage)
  refine mem_bonusRows.mpr ⟨row', hrow', h'.parsed row' (List.mem_of_mem_filter hrow'),
    ⟨digest, ?_, hdigest⟩, hgroup'.trans hgroup, hcase, hlabel⟩
  rw [hbTerms, ← hterms, ← haTerms]
  exact hterm

theorem bonus_of_fingerprint {tasks' : Set String} (h : Labelled tasks s)
    (h' : Labelled tasks' s') (hgroups : RowidGroups s.tables) (hgroups' : RowidGroups s'.tables)
    (hinj : Set.InjOn Sha256.digest (taskPreimage '' (tasks ∪ tasks') ∪
      {s.fingerprintPreimage, s'.fingerprintPreimage}))
    (hfingerprint : s.learningFingerprint = s'.learningFingerprint) (task : String)
    (cards : List CorpusGroupCard) :
    s.shadowGroupBonus task cards = s'.shadowGroupBonus task cards := by
  have hpreimage := hinj (.inr (.inl rfl)) (.inr (.inr rfl)) hfingerprint
  have hrows := rows_of_preimage hpreimage
  have htasks : ∀ a ∈ tasks, ∀ b ∈ tasks', Sha256.digest (taskPreimage a) =
      Sha256.digest (taskPreimage b) → taskPreimage a = taskPreimage b := by
    intro a ha b hb
    exact hinj (.inl ⟨a, .inl ha, rfl⟩) (.inl ⟨b, .inr hb, rfl⟩)
  refine shadowGroupBonus_congr (fun row => ⟨?_, ?_⟩) cards
  · exact mem_bonusRows_of_rows h h' hgroups hgroups' hrows htasks
  · exact mem_bonusRows_of_rows h' h hgroups' hgroups hrows.symm fun a ha b hb heq =>
      (htasks b hb a ha heq.symm).symm

/-! ## What the fingerprint and the bonus leave out -/

/-- Development labels and their terms are all that is read of the labels. -/
theorem unchanged_of_development (htables : s'.tables = s.tables)
    (hlabels : s'.developmentLabels = s.developmentLabels)
    (hterms : ∀ row ∈ s.developmentLabels, ∀ digest,
      (row.caseId, digest) ∈ s'.labelTerms ↔ (row.caseId, digest) ∈ s.labelTerms) :
    s'.learningFingerprint = s.learningFingerprint ∧
    ∀ task cards, s'.shadowGroupBonus task cards = s.shadowGroupBonus task cards := by
  constructor
  · unfold learningFingerprint fingerprintPreimage fingerprintRows
    rw [htables, hlabels]
  · intro task cards
    refine shadowGroupBonus_congr (fun ⟨groupId, caseId, label⟩ => ?_) cards
    rw [mem_bonusRows, mem_bonusRows, htables, hlabels]
    constructor
    · rintro ⟨row, hrow, hparser, ⟨digest, hterm, hdigest⟩, hrest⟩
      exact ⟨row, hrow, hparser, ⟨digest, (hterms row hrow digest).mp hterm, hdigest⟩, hrest⟩
    · rintro ⟨row, hrow, hparser, ⟨digest, hterm, hdigest⟩, hrest⟩
      exact ⟨row, hrow, hparser, ⟨digest, (hterms row hrow digest).mpr hterm, hdigest⟩, hrest⟩

theorem Labelled.heldOut_silent (h : Labelled tasks s)
    (hrecord : s.recordIndependentLabel caseText task nativeId label .heldOut provenanceDigest =
      .ok s') :
    s'.learningFingerprint = s.learningFingerprint ∧
    ∀ task cards, s'.shadowGroupBonus task cards = s.shadowGroupBonus task cards := by
  obtain ⟨caseId, hfirst, rfl⟩ := recordIndependentLabel_ok hrecord
  have hagree := h.agree hfirst
  refine unchanged_of_development rfl
    (developmentLabels_upsert rfl fun old hold hcase => (hagree old hold hcase).2) ?_
  intro row hrow digest
  obtain ⟨hold, hsplit⟩ := List.mem_filter.mp hrow
  -- the terms that are replaced are those of a case without development labels
  have hcase : row.caseId ≠ caseId := by
    intro hcase
    rw [(hagree row hold hcase).2] at hsplit
    cases hsplit
  rw [mem_insertTerms]
  simp [hcase]

theorem outcome_silent {repaired : Bool} {verifierDigest : Digest}
    (houtcome : s.recordVerifiedCaseOutcome caseText task repaired verifierDigest = .ok s') :
    s'.tables = s.tables ∧ s'.labels = s.labels ∧ s'.labelTerms = s.labelTerms ∧
      s'.routes = s.routes ∧ s'.routeState = s.routeState := by
  unfold recordVerifiedCaseOutcome at houtcome
  obtain ⟨caseId, _, houtcome⟩ := except_bind_eq_ok.mp houtcome
  split at houtcome
  · cases houtcome
  obtain ⟨taskDigest, _, houtcome⟩ := except_bind_eq_ok.mp houtcome
  cases houtcome
  exact ⟨rfl, rfl, rfl, rfl, rfl⟩

end Hashing

end LearningStore

end Evidentrail
