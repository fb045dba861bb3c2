import Trustgraphs.PagerankCore.Proofs.OracleProofs
import Trustgraphs.Contracts.Proofs.AttestationAccumulatorProofs
import Trustgraphs.Envelopes.Proofs.PlcProofs
import Trustgraphs.Contracts.Proofs.BreakGlassProofs
import Trustgraphs.Contracts.Proofs.SubnetworkRegistryProofs
import Trustgraphs.NostrEnvelope.Proofs.TgnwProofs
import Trustgraphs.Indexer.Proofs.TrustReconcileProofs
import Trustgraphs.WeightedPriorCore.Proofs.ComputeProofs
import Trustgraphs.Contracts.Proofs.RotationProofs
import Trustgraphs.Contracts.Proofs.StarvationProofs
import Trustgraphs.Contracts.Proofs.EasOffchainAnchorRegistryProofs
import Trustgraphs.Contracts.Proofs.FreshnessProofs
import Trustgraphs.TrustgraphCore.Proofs.ExactProofs
import Trustgraphs.Contracts.Proofs.ImportOrderProofs
import Trustgraphs.Contracts.ParamsCodec
import Trustgraphs.CompositionCore.Proofs.BlobReadProofs
import Trustgraphs.Contracts.Proofs.SnapshotRolesProofs
import Trustgraphs.Contracts.Proofs.VaultClaimProofs
import Trustgraphs.Contracts.Proofs.VaultNoticeProofs
import Trustgraphs.Contracts.Proofs.DistributorFeeProofs
import Trustgraphs.Contracts.Proofs.GovTallyProofs
import Trustgraphs.Contracts.Proofs.GovExecutionProofs
import Trustgraphs.OperatorCore.Proofs.TerminalProofs
import Trustgraphs.WeightedPriorCore.Proofs.HamiltonAgreeProofs
import Trustgraphs.NostrEnvelope.Proofs.EventProofs
import Trustgraphs.NostrEnvelope.Proofs.DeletionProofs
import Trustgraphs.Envelopes.Proofs.MstShapeProofs
import Trustgraphs.HypercertsCore.Proofs.SelfPromotionProofs
import Trustgraphs.HypercertsCore.Proofs.AttributionProofs
import Trustgraphs.CompositionCore.Proofs.CaptureProofs
import Trustgraphs.Contracts.Proofs.ActivityEventProofs
import Trustgraphs.Contracts.Proofs.DistributorClaimProofs
import Trustgraphs.Contracts.Proofs.VaultCapProofs
import Trustgraphs.Contracts.Proofs.VaultMinimumProofs
import Trustgraphs.WeightedPriorCore.Proofs.NormalizeProofs
import Trustgraphs.ContributionsCore.Proofs.CollaboratorProofs
import Trustgraphs.Contracts.Proofs.SnapshotHooksProofs
import Trustgraphs.ContributionsCore.Proofs.RecordProofs
import Trustgraphs.TrustgraphCore.Compute
import Trustgraphs.TrustgraphCore.Proofs.ComputeProofs
