import QuorumTree.Aggregation.Untrusted
import QuorumTree.Main
import QuorumTree.Proofs.CompactSize
import QuorumTree.Proofs.Inclusion.Packing
import QuorumTree.Proofs.Inclusion.Value
import QuorumTree.Proofs.Inclusion.Codec
import QuorumTree.Proofs.Curve.FieldPrime
import QuorumTree.Proofs.Participants
import QuorumTree.Proofs.Quorum.Enumeration
import QuorumTree.Proofs.Quorum.Resolution
import QuorumTree.Proofs.Aggregation.Answers
import QuorumTree.Proofs.Aggregation.Quorums
import QuorumTree.Proofs.Hash.Messages
import QuorumTree.Proofs.Inclusion.Completeness
import QuorumTree.Proofs.Inclusion.Soundness
import QuorumTree.Proofs.Commitment.Contents
import QuorumTree.Proofs.Commitment.Completeness
import QuorumTree.Proofs.Commitment.Soundness
import QuorumTree.Proofs.Inclusion.Position
import QuorumTree.Proofs.Quorum.Rank
import QuorumTree.Proofs.HexReading
import QuorumTree.Proofs.Commitment.Renewal
import QuorumTree.Proofs.Store.Columns
import QuorumTree.Proofs.Store.Loading
import QuorumTree.Proofs.Store.RoundTrip
import QuorumTree.Proofs.Store.Tampering
import QuorumTree.Proofs.Aggregation.Concurrent
import QuorumTree.Proofs.Aggregation.Workers
import QuorumTree.Proofs.Aggregation.Calls
import QuorumTree.Proofs.Refusal
import QuorumTree.Proofs.KeyForms
import QuorumTree.Proofs.Tree.Spread
import QuorumTree.Proofs.Store.Leaves
import QuorumTree.Proofs.Commitment.Refusals
import QuorumTree.Proofs.Commitment.Listing
import QuorumTree.Proofs.Hash.Separation
import QuorumTree.Proofs.Inclusion.Malleability
import QuorumTree.Proofs.Quorum.Unrank
import QuorumTree.Proofs.Commitment.Members
import QuorumTree.Proofs.Inclusion.Verdict
import QuorumTree.Proofs.Command.SignerKeys
import QuorumTree.Proofs.Quorum.LeastThreshold
import QuorumTree.Proofs.Tree.Arena
import QuorumTree.Proofs.Commitment.Work
import QuorumTree.Proofs.Aggregation.CacheHistory
import QuorumTree.Proofs.Aggregation.WeightedSum
import QuorumTree.Proofs.KeyReading
import QuorumTree.Proofs.Command.CommitEnding
import QuorumTree.Proofs.OutputKey
import QuorumTree.Proofs.Quorum.Budget
import QuorumTree.Proofs.Command.Defaults
