import StorageUpgrade.Extraction.Extract
import StorageUpgrade.Layout.Document
import StorageUpgrade.Proofs.Coverage
import StorageUpgrade.Proofs.DictionaryClosure
import StorageUpgrade.Proofs.EscapedText
import StorageUpgrade.Proofs.Normalization
import StorageUpgrade.Proofs.PoolUnfolding
import StorageUpgrade.Proofs.ReachedTypes
import StorageUpgrade.Proofs.RecordedTypes
import StorageUpgrade.Proofs.Replay
import StorageUpgrade.Proofs.ResolutionOutcome
import StorageUpgrade.Proofs.StrictSafety
import StorageUpgrade.Source.Document
import StorageUpgrade.Upgrade.Check
import StorageUpgrade.Proofs.WellDescribed
import StorageUpgrade.Proofs.ExtractedResolution
import StorageUpgrade.Proofs.WrittenAtoms
import StorageUpgrade.Proofs.WrittenTokens
import StorageUpgrade.Proofs.LayoutPersistence
import StorageUpgrade.Proofs.SuccessiveUpgrades
import StorageUpgrade.Proofs.Tolerance
import StorageUpgrade.Proofs.LayoutGrowth
import StorageUpgrade.Proofs.Renumbering
import StorageUpgrade.Proofs.ForbiddenEdits
import StorageUpgrade.Proofs.EqualPairs
import StorageUpgrade.Proofs.EscapeBlocks
import StorageUpgrade.Proofs.ProperExpressions
import StorageUpgrade.Proofs.TypeGrammar
import StorageUpgrade.Proofs.TieBreaking
import StorageUpgrade.Proofs.OrderedMatchings
import StorageUpgrade.Proofs.InPlaceAlignment
import StorageUpgrade.Proofs.NestedQuestions
import StorageUpgrade.Proofs.TreeAgreement
import StorageUpgrade.Proofs.ComparisonQuestions
import StorageUpgrade.Proofs.BracketMatching
import StorageUpgrade.Proofs.ErasedNumbers
import StorageUpgrade.Proofs.RepeatedErasure
import StorageUpgrade.Proofs.FoldedPointers
import StorageUpgrade.Proofs.ReparsedNodes
import StorageUpgrade.Proofs.Outlines
import StorageUpgrade.Proofs.Skeletons
import StorageUpgrade.Proofs.ToleratedTypeChanges
import StorageUpgrade.Proofs.DecodedText
import StorageUpgrade.Proofs.PointerForms
import StorageUpgrade.Proofs.ReachedDictionary
import StorageUpgrade.Proofs.ValueTypes
import StorageUpgrade.Proofs.NamedTypes
import StorageUpgrade.Proofs.BoundedRuns
import StorageUpgrade.Proofs.NestedResolution
import StorageUpgrade.Proofs.WorkQueues
import StorageUpgrade.Proofs.SourcePersistence
import StorageUpgrade.Proofs.PreOrder
