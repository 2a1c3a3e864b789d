import Evidentrail.Lib.Encoding
import Evidentrail.Lib.Sha2
import Evidentrail.Lib.Rust
import Evidentrail.Lib.Sort
import Evidentrail.Lib.Search
import Evidentrail.Schema.Envelope
import Evidentrail.Schema.Acquisition
import Evidentrail.Schema.Fetch
import Evidentrail.Core.Hash
import Evidentrail.Core.Identity
import Evidentrail.Core.Transformation
import Evidentrail.Core.Ledger
import Evidentrail.Core.LedgerRun
import Evidentrail.Core.LedgerSeal
import Evidentrail.Core.LedgerIndex
import Evidentrail.Core.Ack
import Evidentrail.Core.Block
import Evidentrail.Framing.Classify
import Evidentrail.Framing.Framer
import Evidentrail.Select.Types
import Evidentrail.Select.Problem
import Evidentrail.Select.Objective
import Evidentrail.Select.Select
import Evidentrail.Select.Sound
import Evidentrail.Select.Gain
import Evidentrail.Select.Greedy
import Evidentrail.Select.Quality
import Evidentrail.Lib.Lines
import Evidentrail.Core.Reference
import Evidentrail.Evidence.Text
import Evidentrail.Evidence.Brief
import Evidentrail.Evidence.Lines
import Evidentrail.Evidence.Reading
import Evidentrail.Lib.Attempt
import Evidentrail.Store.Lifecycle
import Evidentrail.Store.Authority
import Evidentrail.Store.Directory
import Evidentrail.Store.Repository
import Evidentrail.Store.Record
import Evidentrail.Store.Laws
import Evidentrail.Store.Recovery
import Evidentrail.Store.Rejected
import Evidentrail.Store.Retry
import Evidentrail.Store.ProcessRun
import Evidentrail.Store.Conformance
import Evidentrail.Store.RecordRun
import Evidentrail.Memory.Contained
import Evidentrail.Corpus.Pages
import Evidentrail.Corpus.Checkpoint
import Evidentrail.Corpus.Routes
import Evidentrail.LocalFile.Exact
import Evidentrail.Store.KeyedFormats
import Evidentrail.Snapshot.Lookup
import Evidentrail.Framing.Confidence
import Evidentrail.Core.Substitution
import Evidentrail.Core.Expansion
import Evidentrail.Select.Canonical
import Evidentrail.Snapshot.Catalog
import Evidentrail.Snapshot.Segment
import Evidentrail.Snapshot.SegmentFile
import Evidentrail.Snapshot.EventIndexV1
import Evidentrail.Snapshot.Canonical
import Evidentrail.Snapshot.CompletionRecord
import Evidentrail.Candidates.Respelled
import Evidentrail.Candidates.Annotated
import Evidentrail.Candidates.SharedIdentity
import Evidentrail.Corpus.Normalized
import Evidentrail.Corpus.Paging
import Evidentrail.Ingest.BatchDigest
import Evidentrail.Corpus.Sampled
import Evidentrail.Corpus.Promoted
import Evidentrail.Corpus.Rebuilt
import Evidentrail.Ingest.KubernetesMembers
import Evidentrail.Bundle.RoundTrip
