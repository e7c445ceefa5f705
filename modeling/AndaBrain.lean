import AndaBrain.ProductFence
import AndaBrain.IntakeReceipts
import AndaBrain.RecallCoverage
import AndaBrain.ActionSufficiency
import AndaBrain.ActionReplies
import AndaBrain.UtilityRuns
import AndaBrain.ObservationReaders
import AndaBrain.FormationSlots
import AndaBrain.WikiReplay
import AndaBrain.WikiScopes
import AndaBrain.WikiCitations
import AndaBrain.CommitmentReview
import AndaBrain.AttentionDelivery
import AndaBrain.AttentionRuns
import AndaBrain.AttentionWakes
import AndaBrain.SemanticRuns
import AndaBrain.WorkerCoverage
import AndaBrain.RecallConstraints
import AndaBrain.CurrentReach
import AndaBrain.IntentScope
import AndaBrain.WorkerReview
import AndaBrain.SourceErasure
import AndaBrain.WorkerSources
import AndaBrain.VocabularyReview
import AndaBrain.PreviewErasure
import AndaBrain.WikiHeadings
import AndaBrain.WikiBounds
import AndaBrain.WikiMarks
import AndaBrain.MigrationOnce
import AndaBrain.SpaceEviction
import AndaBrain.RecallOrder
import AndaBrain.RecallFooter
import AndaBrain.DeletionTargets
import AndaBrain.WikiPending
import AndaBrain.WikiRetention
import AndaBrain.WikiRecommit
import AndaBrain.WorkerRecords
import AndaBrain.HistoryDocument
import AndaBrain.TrustHistory
import AndaBrain.Inbox
import AndaBrain.TrustRoots
import AndaBrain.WorkflowJournal
