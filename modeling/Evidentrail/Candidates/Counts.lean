import Evidentrail.Candidates.Lexical
import Evidentrail.Lib.Loop

/-!
# What the scan counts

The counters of a scan are functions of the tokens it has seen: of a token list
within a block, of the blocks in the loop over them. A byte gives three tokens at
most, so the cap on bytes keeps every counter in range.
-/

namespace Evidentrail

open Rust Std Ascii Slice Visit

/-! ## Counting tokens -/

/-- The tokens of some bytes, in small letters. -/
def loweredTokens (bytes : List UInt8) : List (List UInt8) :=
  (asciiTokens bytes).map canonicalizeAscii

variable {query : PreprocessedQueryV1}

/-- What the scan has counted when it has seen these tokens. -/
def TokenScan.of (tokens : List (List UInt8)) : TokenScan query where
  documentTokens := tokens.length
  termFrequencies position := tokens.count (query.terms.get position).canonicalToken
  identifierMatches position := decide ((query.identifiers.get position).canonicalToken ∈ tokens)
  scanArithmeticExhausted := false

theorem TokenScan.empty_eq_of : (TokenScan.empty : TokenScan query) = .of [] := by
  simp [empty, of]

/-- The search finds the position of the token among canonical tokens, if it has one. -/
theorem compareCanonicalToRaw_search {α : Type} {canonicalToken : α → List UInt8} {l : List α}
    (h : StrictlySorted canonicalToken l) (token : List UInt8) :
    match binarySearchBy (fun a => compareCanonicalToRaw (canonicalToken a) token) l with
    | .ok found => ∀ position : Fin l.length,
        canonicalToken (l.get position) = canonicalizeAscii token ↔ found = position
    | .error _ => ∀ position : Fin l.length,
        canonicalToken (l.get position) ≠ canonicalizeAscii token := by
  have hfound : ∀ position : Fin l.length,
      binarySearchBy (fun a => compareCanonicalToRaw (canonicalToken a) token) l = .ok position ↔
        canonicalToken (l.get position) = canonicalizeAscii token :=
    fun position => h.binarySearchByKey_eq_ok
  split
  · rename_i found hsearch
    intro position
    rw [← hfound position, hsearch, Except.ok.injEq]
  · rename_i e hsearch
    intro position hsame
    rw [← hfound position, hsearch] at hsame
    cases hsame

theorem TokenScan.countTerm_of (hquery : query.WellFormed) {seen : List (List UInt8)}
    (hseen : seen.length + 1 < u64Bound) (token : List UInt8) (scan : TokenScan query)
    (hscan : scan.termFrequencies = (of seen : TokenScan query).termFrequencies) :
    scan.countTerm token = some { scan with
      termFrequencies :=
        (of (seen ++ [canonicalizeAscii token]) : TokenScan query).termFrequencies } := by
  have hsearch := compareCanonicalToRaw_search hquery.terms_sorted token
  unfold countTerm
  split at hsearch
  · rename_i found hfound
    have hle : seen.count (query.terms.get found).canonicalToken ≤ seen.length :=
      List.count_le_length
    have hnext : checkedAdd (scan.termFrequencies found) 1 =
        some (seen.count (query.terms.get found).canonicalToken + 1) := by
      simp only [hscan, of]
      exact checkedAdd_of_lt (by omega)
    simp only [hfound, hnext, Option.map_some]
    congr 2
    funext position
    rw [hscan, Function.update_apply]
    simp only [of, List.count_append, List.count_singleton, beq_iff_eq]
    by_cases hposition : position = found
    · rw [if_pos hposition, if_pos ((hsearch position).mpr hposition.symm).symm, hposition]
    · rw [if_neg hposition, if_neg fun heq => hposition ((hsearch position).mp heq.symm).symm]
      rfl
  · rename_i e hfound
    simp only [hfound]
    have hsame : scan.termFrequencies =
        (of (seen ++ [canonicalizeAscii token]) : TokenScan query).termFrequencies := by
      rw [hscan]
      funext position
      simp only [of, List.count_append, List.count_singleton, beq_iff_eq]
      rw [if_neg fun heq => hsearch position heq.symm]
      rfl
    rw [← hsame]

theorem TokenScan.matchIdentifier_of (hquery : query.WellFormed) (seen : List (List UInt8))
    (token : List UInt8) (scan : TokenScan query)
    (hscan : scan.identifierMatches = (of seen : TokenScan query).identifierMatches) :
    scan.matchIdentifier token = { scan with
      identifierMatches :=
        (of (seen ++ [canonicalizeAscii token]) : TokenScan query).identifierMatches } := by
  have hsearch := compareCanonicalToRaw_search hquery.identifiers_sorted token
  unfold matchIdentifier
  split at hsearch
  · rename_i found hfound
    simp only [hfound]
    congr 1
    funext position
    rw [hscan, Function.update_apply]
    simp only [of, List.mem_append, List.mem_singleton]
    by_cases hposition : position = found
    · have hsame := (hsearch position).mpr hposition.symm
      rw [if_pos hposition, eq_comm, decide_eq_true_eq]
      exact .inr hsame
    · have hother := fun heq => hposition ((hsearch position).mp heq).symm
      rw [if_neg hposition, decide_eq_decide, or_iff_left hother]
  · rename_i e hfound
    simp only [hfound]
    have hsame : scan.identifierMatches =
        (of (seen ++ [canonicalizeAscii token]) : TokenScan query).identifierMatches := by
      rw [hscan]
      funext position
      simp only [of, List.mem_append, List.mem_singleton]
      rw [decide_eq_decide, or_iff_left (hsearch position)]
    rw [← hsame]

theorem visitDocumentToken_of (hquery : query.WellFormed) {seen : List (List UInt8)}
    (hseen : seen.length + 1 < u64Bound) (token : List UInt8) :
    visitDocumentToken (.of seen : TokenScan query) token =
      (.of (seen ++ [canonicalizeAscii token]), true) := by
  have hcount : checkedAdd (TokenScan.of seen : TokenScan query).documentTokens 1 =
      some (seen.length + 1) := checkedAdd_of_lt hseen
  have hterm := TokenScan.countTerm_of hquery hseen token
    { (.of seen : TokenScan query) with documentTokens := seen.length + 1 } rfl
  have hidentifier := TokenScan.matchIdentifier_of hquery seen token
    { (.of seen : TokenScan query) with
      documentTokens := seen.length + 1
      termFrequencies := (TokenScan.of (seen ++ [canonicalizeAscii token]) :
        TokenScan query).termFrequencies } rfl
  simp only [visitDocumentToken, hcount, hterm, hidentifier]
  simp [TokenScan.of]

/-! ## Scanning events -/

/-- The scan of the bytes behind what was scanned. -/
theorem forEachAsciiToken_visitDocumentToken (hquery : query.WellFormed)
    {seen : List (List UInt8)} {bytes : List UInt8}
    (hseen : seen.length + 3 * bytes.length < u64Bound) :
    forEachAsciiToken visitDocumentToken (.of seen : TokenScan query) bytes =
      .of (seen ++ loweredTokens bytes) := by
  have hcount := length_asciiTokens_le bytes
  have hstep : ∀ before token rest, asciiTokens bytes = before ++ token :: rest →
      visitDocumentToken (.of (seen ++ before.map canonicalizeAscii) : TokenScan query) token =
        (.of (seen ++ (before ++ [token]).map canonicalizeAscii), true) := by
    intro before token rest hall
    have hlength := congrArg List.length hall
    rw [List.length_append, List.length_cons] at hlength
    rw [visitDocumentToken_of hquery
      (by rw [List.length_append, List.length_map]; omega), List.map_append, List.append_assoc]
    rfl
  have hfeed := feed_eq_of_step
    (fun before => (.of (seen ++ before.map canonicalizeAscii) : TokenScan query)) hstep
  rw [List.map_nil, List.append_nil] at hfeed
  rw [forEachAsciiToken_eq_feed, hfeed, loweredTokens]

def eventsBytes (events : List Event) : Nat := (events.map (·.raw.length)).sum

def eventsTokens (events : List Event) : List (List UInt8) :=
  events.flatMap fun event => loweredTokens event.raw

theorem length_eventsTokens_le (events : List Event) :
    (eventsTokens events).length ≤ 3 * eventsBytes events := by
  induction events with
  | nil => exact Nat.zero_le _
  | cons event rest ih =>
      have hevent := length_asciiTokens_le event.raw
      rw [eventsTokens, List.flatMap_cons, List.length_append, loweredTokens, List.length_map]
      rw [eventsBytes, List.map_cons, List.sum_cons]
      unfold eventsTokens eventsBytes loweredTokens at ih
      unfold loweredTokens
      omega

/-- The only way a lane stops without a fault. -/
def CandidateExit.IsNeedsMore (exit : CandidateExit) : Prop := ∃ reason, exit = .needsMore reason

theorem checkedScannedBytes_eq_ok {current additional : Nat}
    (h : current + additional ≤ maxPrimaryBytesScannedV1) :
    checkedScannedBytes current additional = .ok (current + additional) := by
  have hmax : maxPrimaryBytesScannedV1 = 67108864 := rfl
  have h64 : u64Bound = 2 ^ 64 := rfl
  rw [checkedScannedBytes, checkedAdd_of_lt (by omega)]
  simp only [if_neg (Nat.not_lt.mpr h)]

theorem checkedScannedBytes_eq_error {current additional : Nat}
    (h : maxPrimaryBytesScannedV1 < current + additional) :
    ∃ reason, checkedScannedBytes current additional = .error reason := by
  unfold checkedScannedBytes
  split
  · exact ⟨_, rfl⟩
  · rename_i next hnext
    obtain ⟨_, rfl⟩ := checkedAdd_eq_some.mp hnext
    rw [if_pos h]
    exact ⟨_, rfl⟩

theorem withAuthorizedEventScan_eq_error {α : Type}
    {alreadyScanned currentBlockBytes eventBytes : Nat} (scan : Unit → α)
    (h : maxPrimaryBytesScannedV1 < alreadyScanned + (currentBlockBytes + eventBytes)) :
    ∃ reason, withAuthorizedEventScan alreadyScanned currentBlockBytes eventBytes scan =
      .error reason := by
  unfold withAuthorizedEventScan
  split
  · exact ⟨_, rfl⟩
  · rename_i next hnext
    obtain ⟨_, rfl⟩ := checkedAdd_eq_some.mp hnext
    obtain ⟨reason, hreason⟩ := checkedScannedBytes_eq_error h
    rw [hreason]
    exact ⟨_, rfl⟩

theorem eventsBytes_append (seen rest : List Event) :
    eventsBytes (seen ++ rest) = eventsBytes seen + eventsBytes rest := by
  rw [eventsBytes, List.map_append, List.sum_append]
  rfl

theorem eventsTokens_append (seen rest : List Event) :
    eventsTokens (seen ++ rest) = eventsTokens seen ++ eventsTokens rest :=
  List.flatMap_append

/-- One event more, if it fits. -/
theorem steps_scanEvent (hquery : query.WellFormed) {scannedBytes : Nat}
    (hscanned : scannedBytes ≤ maxPrimaryBytesScannedV1) (events : List Event) :
    Loop.Steps (scanEvent scannedBytes : Nat × TokenScan query → Event → _)
      (fun seen => (eventsBytes seen, .of (eventsTokens seen)))
      (fun seen => scannedBytes + eventsBytes seen ≤ maxPrimaryBytesScannedV1)
      CandidateExit.IsNeedsMore events := by
  have hmax : maxPrimaryBytesScannedV1 = 67108864 := rfl
  have h64 : u64Bound = 2 ^ 64 := rfl
  have hone : ∀ seen event, eventsBytes (seen ++ [event]) = eventsBytes seen + event.raw.length :=
    fun seen event => eventsBytes_append seen [event]
  refine ⟨hscanned, fun seen rest hall hfits => ?_, fun seen event rest _ _ hfits => ?_,
    fun seen event rest _ _ hfits => ?_⟩
  · rw [hall, eventsBytes_append] at hfits
    omega
  · have htokens := length_eventsTokens_le seen
    rw [hone] at hfits
    have hvisit : forEachAsciiToken visitDocumentToken
        (.of (eventsTokens seen) : TokenScan query) event.raw =
          .of (eventsTokens (seen ++ [event])) := by
      rw [forEachAsciiToken_visitDocumentToken hquery (by omega), eventsTokens_append]
      simp only [eventsTokens, List.flatMap_singleton]
    have hlength : u64TryFrom event.raw.length = some event.raw.length :=
      u64TryFrom_eq_some.mpr ⟨by omega, rfl⟩
    have hblock : checkedAdd (eventsBytes seen) event.raw.length =
        some (eventsBytes seen + event.raw.length) := checkedAdd_of_lt (by omega)
    simp only [scanEvent, hlength, withAuthorizedEventScan, hblock,
      checkedScannedBytes_eq_ok hfits, hvisit, hone]
    rfl
  · rw [hone] at hfits
    unfold scanEvent
    split
    · exact ⟨_, rfl, _, rfl⟩
    · rename_i eventBytes hbytes
      obtain ⟨_, rfl⟩ := u64TryFrom_eq_some.mp hbytes
      obtain ⟨reason, hreason⟩ := withAuthorizedEventScan_eq_error
        (fun _ => forEachAsciiToken visitDocumentToken
          (.of (eventsTokens seen) : TokenScan query) event.raw)
        (Nat.lt_of_not_le hfits)
      rw [hreason]
      exact ⟨_, rfl, _, rfl⟩

theorem scanEvents_eq (hquery : query.WellFormed) {scannedBytes : Nat}
    (hscanned : scannedBytes ≤ maxPrimaryBytesScannedV1) (events : List Event) :
    let result := events.foldlM (scanEvent scannedBytes) (0, (TokenScan.empty : TokenScan query))
    (scannedBytes + eventsBytes events ≤ maxPrimaryBytesScannedV1 →
      result = .ok (eventsBytes events, .of (eventsTokens events))) ∧
    (¬ scannedBytes + eventsBytes events ≤ maxPrimaryBytesScannedV1 →
      ∃ e, result = .error e ∧ e.IsNeedsMore) := by
  rw [TokenScan.empty_eq_of]
  exact (steps_scanEvent hquery hscanned events).foldlM

/-! ## Scanning blocks -/

theorem foldlM_bump {n : Nat} {seen : Fin n → Bool} : ∀ {positions : List (Fin n)}
    {counts : Fin n → Nat}, positions.Nodup → (∀ i ∈ positions, counts i + 1 < u64Bound) →
      positions.foldlM (fun counts position =>
        if seen position then
          (checkedAdd (counts position) 1).map (Function.update counts position ·)
        else some counts) counts =
      some fun i => counts i + if i ∈ positions ∧ seen i = true then 1 else 0
  | [], counts, _, _ => by simp
  | position :: rest, counts, hnodup, hroom => by
      obtain ⟨hnew, hrest⟩ := List.nodup_cons.mp hnodup
      obtain ⟨hhere, hlater⟩ := List.forall_mem_cons.mp hroom
      rw [List.foldlM_cons]
      by_cases hseen : seen position = true
      · have hroom' : ∀ i ∈ rest,
            Function.update counts position (counts position + 1) i + 1 < u64Bound := by
          intro i hi
          have hne : i ≠ position := fun heq => hnew (heq ▸ hi)
          rw [Function.update_of_ne hne]
          exact hlater i hi
        rw [if_pos hseen, checkedAdd_of_lt hhere, Option.map_some, Option.bind_eq_bind,
          Option.bind_some, foldlM_bump hrest hroom']
        congr 1
        funext i
        by_cases hi : i = position
        · subst hi
          simp [hnew, hseen]
        · simp [hi]
      · rw [if_neg hseen, Option.bind_eq_bind, Option.bind_some, foldlM_bump hrest hlater]
        congr 1
        funext i
        by_cases hi : i = position
        · simp [hi, hseen]
        · simp [hi]

theorem bumpCounts_eq {n : Nat} {counts : Fin n → Nat} (seen : Fin n → Bool)
    (h : ∀ i, counts i + 1 < u64Bound) :
    bumpCounts counts seen = some fun i => counts i + if seen i = true then 1 else 0 := by
  rw [bumpCounts, foldlM_bump (List.nodup_finRange n) fun i _ => h i]
  simp

/-- The tokens and bytes of a block. -/
def blockTokens (index : BlockIndex) (block : EventBlock) : List (List UInt8) :=
  eventsTokens (index.members block)

def blockBytes (index : BlockIndex) (block : EventBlock) : Nat :=
  eventsBytes (index.members block)

def BlockStatistics.of (index : BlockIndex) (block : EventBlock) : BlockStatistics query where
  blockId := block.id
  orderedEventIds := block.memberIds
  exactBytes := blockBytes index block
  documentTokens := (blockTokens index block).length
  termFrequencies position :=
    (blockTokens index block).count (query.terms.get position).canonicalToken
  identifierMatches position :=
    decide ((query.identifiers.get position).canonicalToken ∈ blockTokens index block)

def totalBytes (index : BlockIndex) (blocks : List EventBlock) : Nat :=
  (blocks.map (blockBytes index)).sum

def totalTokens (index : BlockIndex) (blocks : List EventBlock) : Nat :=
  (blocks.map fun block => (blockTokens index block).length).sum

/-- In how many blocks a token stands. -/
def documentFrequency (index : BlockIndex) (blocks : List EventBlock) (token : List UInt8) : Nat :=
  blocks.countP fun block => token ∈ blockTokens index block

/-- What the scan has counted when it has seen these blocks. -/
def LexicalScan.of (index : BlockIndex) (blocks : List EventBlock) : LexicalScan query where
  statistics := blocks.map (.of index)
  scannedBytes := totalBytes index blocks
  scannedTokens := totalTokens index blocks
  termDocumentFrequencies position :=
    documentFrequency index blocks (query.terms.get position).canonicalToken
  identifierFanout position :=
    documentFrequency index blocks (query.identifiers.get position).canonicalToken

theorem totalBytes_append (index : BlockIndex) (seen rest : List EventBlock) :
    totalBytes index (seen ++ rest) = totalBytes index seen + totalBytes index rest := by
  rw [totalBytes, List.map_append, List.sum_append]
  rfl

theorem totalTokens_append (index : BlockIndex) (seen rest : List EventBlock) :
    totalTokens index (seen ++ rest) = totalTokens index seen + totalTokens index rest := by
  rw [totalTokens, List.map_append, List.sum_append]
  rfl

theorem documentFrequency_append (index : BlockIndex) (seen : List EventBlock)
    (block : EventBlock) (token : List UInt8) :
    documentFrequency index (seen ++ [block]) token =
      documentFrequency index seen token + if token ∈ blockTokens index block then 1 else 0 := by
  rw [documentFrequency, List.countP_append, List.countP_singleton]
  simp only [decide_eq_true_eq]
  rfl

theorem totalTokens_le (index : BlockIndex) (blocks : List EventBlock) :
    totalTokens index blocks ≤ 3 * totalBytes index blocks := by
  induction blocks with
  | nil => exact Nat.zero_le _
  | cons block rest ih =>
      have hblock := length_eventsTokens_le (index.members block)
      rw [totalTokens, totalBytes, List.map_cons, List.map_cons, List.sum_cons, List.sum_cons]
      unfold totalTokens totalBytes at ih
      simp only [blockTokens, blockBytes] at ih ⊢
      omega

theorem LexicalScan.empty_eq_of (index : BlockIndex) :
    (LexicalScan.empty : LexicalScan query) = .of index [] := rfl

/-- One block more, if it fits. -/
theorem steps_scanBlock (hquery : query.WellFormed) {index : BlockIndex}
    (h : index.Reconciled) (hlength : index.blocks.length ≤ maxPrimaryBlocksV1) :
    Loop.Steps (scanBlock index) (LexicalScan.of index : List EventBlock → LexicalScan query)
      (fun seen => totalBytes index seen ≤ maxPrimaryBytesScannedV1)
      CandidateExit.IsNeedsMore index.blocks := by
  have hmax : maxPrimaryBytesScannedV1 = 67108864 := rfl
  have hmaxBlocks : maxPrimaryBlocksV1 = 4096 := rfl
  have h64 : u64Bound = 2 ^ 64 := rfl
  have hone : ∀ seen block,
      totalBytes index (seen ++ [block]) = totalBytes index seen + blockBytes index block :=
    fun seen block => totalBytes_append index seen [block]
  refine ⟨Nat.zero_le _, fun seen rest hall hfits => ?_,
    fun seen block rest hall hseen hfits => ?_, fun seen block rest hall hseen hfits => ?_⟩
  · rw [hall, totalBytes_append] at hfits
    omega
  · have hin : block ∈ index.blocks := by rw [hall]; simp
    rw [hone] at hfits
    have hcount : ∀ token, documentFrequency index seen token + 1 < u64Bound := by
      intro token
      have hle : documentFrequency index seen token ≤ seen.length := List.countP_le_length
      have hshort := congrArg List.length hall
      rw [List.length_append, List.length_cons] at hshort
      omega
    have htokens := totalTokens_le index (seen ++ [block])
    rw [hone, totalTokens_append] at htokens
    have hblock : totalTokens index [block] = (blockTokens index block).length := by
      simp [totalTokens]
    have hevents : (index.members block).foldlM (scanEvent (totalBytes index seen))
        (0, (TokenScan.empty : TokenScan query)) =
          .ok (blockBytes index block, .of (blockTokens index block)) :=
      (scanEvents_eq hquery hseen (index.members block)).1 hfits
    have hscanned : checkedAdd (totalTokens index seen) (blockTokens index block).length =
        some (totalTokens index seen + (blockTokens index block).length) :=
      checkedAdd_of_lt (by omega)
    have hterms := bumpCounts_eq (fun position : Fin query.terms.length =>
      decide ((blockTokens index block).count (query.terms.get position).canonicalToken > 0))
      fun position => hcount (query.terms.get position).canonicalToken
    simp only [gt_iff_lt, List.count_pos_iff, decide_eq_true_eq] at hterms
    have hidentifiers := bumpCounts_eq (fun position : Fin query.identifiers.length =>
      decide ((query.identifiers.get position).canonicalToken ∈ blockTokens index block))
      fun position => hcount (query.identifiers.get position).canonicalToken
    simp only [scanBlock, h.expands block hin, LexicalScan.of, hevents, TokenScan.of,
      checkedScannedBytes_eq_ok hfits, hscanned, hterms, hidentifiers, hone, totalTokens_append,
      hblock, documentFrequency_append, List.map_append, List.map_singleton, BlockStatistics.of,
      decide_eq_true_eq, List.count_pos_iff, gt_iff_lt]
  · have hin : block ∈ index.blocks := by rw [hall]; simp
    rw [hone] at hfits
    obtain ⟨e, herror, hstops⟩ := (scanEvents_eq hquery hseen (index.members block)).2 hfits
    refine ⟨e, ?_, hstops⟩
    simp only [scanBlock, h.expands block hin, LexicalScan.of, herror]

end Evidentrail
