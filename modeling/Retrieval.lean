import Retrieval.Collector.TopHits
import Retrieval.Collector.Delivery
import Retrieval.Explanation.Json
import Retrieval.Query.Explain
import Retrieval.Query.Search
import Retrieval.Proofs.Posting
import Retrieval.Proofs.Conjunction
import Retrieval.Proofs.Queue
import Retrieval.Proofs.QueueOperations
import Retrieval.Proofs.Threshold
import Retrieval.Proofs.Exclusion
import Retrieval.Proofs.Bonus
import Retrieval.Proofs.Counted
import Retrieval.Proofs.Composition
import Retrieval.Proofs.Boolean
import Retrieval.Proofs.Matching
import Retrieval.Proofs.Acceptance
import Retrieval.Proofs.Run
import Retrieval.Proofs.Search
import Retrieval.Proofs.Terms
import Retrieval.Proofs.FirstSeek
import Retrieval.Proofs.Nested
import Retrieval.Proofs.Explained
import Retrieval.Proofs.NestedCounts
import Retrieval.Proofs.Agreement
import Retrieval.Proofs.Exhaustion
import Retrieval.Proofs.Finality
import Retrieval.Proofs.Calls
import Retrieval.Proofs.Delivery
import Retrieval.Proofs.Termination
import Retrieval.Proofs.Faults
import Retrieval.Proofs.FaultyConjunction
import Retrieval.Proofs.FaultyThreshold
import Retrieval.Proofs.FaultyExclusion
import Retrieval.Proofs.FaultyComposition
import Retrieval.Proofs.Soundness
import Retrieval.Proofs.Traversal
import Retrieval.Proofs.Quorum
import Retrieval.Proofs.Intersection
import Retrieval.Proofs.AnyOf
import Retrieval.Proofs.Difference
import Retrieval.Proofs.Raised
import Retrieval.Proofs.Conservation
import Retrieval.Proofs.HeadCount
import Retrieval.Proofs.Careful
import Retrieval.Proofs.Source
import Retrieval.Proofs.FaultyQuorum
import Retrieval.Proofs.FaultyDifference
import Retrieval.Proofs.Stepping
import Retrieval.Proofs.Breakdown
import Retrieval.Proofs.CountOnce
import Retrieval.Proofs.BestHits
import Retrieval.Proofs.Arrangement
import Retrieval.Proofs.Accounting
import Retrieval.Proofs.Legibility
import Retrieval.Proofs.Layout
import Retrieval.Proofs.RoundTrip
import Retrieval.Proofs.Rounding
import Retrieval.Proofs.Arithmetic
import Retrieval.Proofs.ShortestDecimal
import Retrieval.Proofs.Separation
import Retrieval.Proofs.Restoration
import Retrieval.Proofs.Reading
import Retrieval.Proofs.ReadBack
import Retrieval.Proofs.Share
