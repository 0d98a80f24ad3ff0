import Highlight.Main
import Highlight.Proofs.ReachedPositions
import Highlight.Proofs.ScanSteps
import Highlight.Proofs.TokenRuns
import Highlight.Proofs.LineTiling
import Highlight.Proofs.LinkedGrammar
import Highlight.Proofs.MatchBounds
import Highlight.Proofs.OpenRegions
import Highlight.Proofs.Resumption
import Highlight.Proofs.ScanProgress
import Highlight.Proofs.MatchSelection
import Highlight.Proofs.PackedTokens
import Highlight.Proofs.RuleTable
import Highlight.Proofs.ScanFailures
import Highlight.Proofs.FailureLaw
import Highlight.Proofs.LineErrors
import Highlight.Proofs.CaptureLevels
import Highlight.Proofs.CaptureDepth
import Highlight.Proofs.WrittenRules
import Highlight.Proofs.TableLayout
import Highlight.Proofs.PlacedRules
import Highlight.Proofs.ReadGrammars
import Highlight.Proofs.FaithfulTable
import Highlight.Proofs.RenamedGrammars
import Highlight.Proofs.RenamedScans
import Highlight.Proofs.LinkedDocuments
import Highlight.Proofs.ReorderedRules
import Highlight.Proofs.KeptGrammars
import Highlight.Proofs.DependencyWalks
import Highlight.Proofs.DependencyClosure
import Highlight.Proofs.LoadErrors
import Highlight.Proofs.ReorderedGrammars
import Highlight.Proofs.LineRuns
import Highlight.Proofs.NestedRegions
import Highlight.Proofs.ThemeColors
import Highlight.Proofs.KeptAnswers
import Highlight.Proofs.RetriedLoads
import Highlight.Library.Requests
import Highlight.Proofs.JobTables
import Highlight.Proofs.SharedRequests
import Highlight.Proofs.LoneRequests
import Highlight.Proofs.SelectorReading
import Highlight.Proofs.SelectorText
import Highlight.Proofs.DocumentStart
import Highlight.Proofs.FixedRegions
import Highlight.Proofs.EnabledRules
import Highlight.Proofs.UsedRules
import Highlight.Proofs.InheritedStyles
import Highlight.Proofs.InjectionOrder
import Highlight.Proofs.ManifestRoundTrip
import Highlight.Proofs.GrammarFormats
import Highlight.Proofs.FlattenedRules
import Highlight.Proofs.CaptureReach
import Highlight.Proofs.CaptureScopes
import Highlight.Proofs.LastingRegions
import Highlight.Proofs.BackReferences
import Highlight.Proofs.LiteralPatterns
import Highlight.Proofs.UnendingRegions
import Highlight.Proofs.CaptureNumbers
import Highlight.Proofs.AnchorVariants
import Highlight.Proofs.ColorLimits
import Highlight.Proofs.SelectorChoices
import Highlight.Proofs.RememberedStyles
import Highlight.Proofs.MetadataWord
import Highlight.Proofs.LanguageNumbers
import Highlight.Proofs.TemplateWords
import Highlight.Proofs.PathEmbeddings
import Highlight.Proofs.SegmentOrder
