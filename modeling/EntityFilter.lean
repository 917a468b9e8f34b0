import EntityFilter.Aggregate
import EntityFilter.Analysis
import EntityFilter.Analysis.Printer
import EntityFilter.Calendar.Period
import EntityFilter.Calendar.Reader
import EntityFilter.Catalog.Printer
import EntityFilter.Catalog.Reader
import EntityFilter.Catalog.Validation
import EntityFilter.Compiled
import EntityFilter.Description
import EntityFilter.Description.Printer
import EntityFilter.Document.Canonical
import EntityFilter.Document.Printer
import EntityFilter.Document.Reader
import EntityFilter.Filter.Reader
import EntityFilter.FilterSchema.Cache
import EntityFilter.Literal.Printer
import EntityFilter.LogSettings
import EntityFilter.Number.Scaled
import EntityFilter.Number.Shortest
import EntityFilter.Operator.Condition
import EntityFilter.OrderedMap
import EntityFilter.Path
import EntityFilter.Pattern.Matcher
import EntityFilter.Pattern.Size
import EntityFilter.Projection.Set
import EntityFilter.Proofs.Contributions
import EntityFilter.Proofs.Requests
import EntityFilter.Proofs.Tests
import EntityFilter.Proofs.Visits
import EntityFilter.Row.Annotation
import EntityFilter.SearchMode
import EntityFilter.Settings
import EntityFilter.Settings.Printer
import EntityFilter.Settings.Reader
import EntityFilter.Text.Blank
import EntityFilter.Text.Letter
import EntityFilter.Text.Lowercase
import EntityFilter.Text.Segment
import EntityFilter.Toml.Reader
import EntityFilter.Window
import EntityFilter.Proofs.PatternSafety
import EntityFilter.Proofs.Handles
import EntityFilter.Proofs.Plans
import EntityFilter.Proofs.Reach
import EntityFilter.Proofs.FilterKeys
import EntityFilter.Proofs.Connectives
import EntityFilter.Proofs.Interpretation
import EntityFilter.Proofs.AlikeRows
import EntityFilter.Proofs.AnnotatedRows
import EntityFilter.Proofs.AnnotationOrder
import EntityFilter.Proofs.Annotation
import EntityFilter.Proofs.Counting
import EntityFilter.Proofs.OfferedKeys
import EntityFilter.Proofs.ProjectionNames
import EntityFilter.Proofs.ReachableFilters
import EntityFilter.Proofs.MemberOrder
import EntityFilter.Proofs.ReorderedConditions
import EntityFilter.Proofs.AcceptedPatterns
import EntityFilter.Proofs.CacheRuns
import EntityFilter.Proofs.DescribedKeys
import EntityFilter.Proofs.AnalyzedRelations
import EntityFilter.Proofs.LinkedFilters
import EntityFilter.Proofs.SchemaChains
import EntityFilter.Proofs.Features
import EntityFilter.Proofs.HonouredFeatures
import EntityFilter.Proofs.KeptTests
import EntityFilter.Proofs.AppliedLeaves
import EntityFilter.Proofs.LeafReads
import EntityFilter.Proofs.ArrayTests
import EntityFilter.Proofs.UsedProjections
import EntityFilter.Proofs.KeptMembers
import EntityFilter.Proofs.KeysReadBack
import EntityFilter.Proofs.WrittenPatterns
import EntityFilter.Proofs.ExactShapes
import EntityFilter.Proofs.OperatorTypes
import EntityFilter.Proofs.SettledTypes
import EntityFilter.Proofs.SameFilters
import EntityFilter.Proofs.RestatedFilters
import EntityFilter.Proofs.TidyPredicates
import EntityFilter.Proofs.InsertionRuns
import EntityFilter.Proofs.MissingValues
import EntityFilter.Proofs.UnequalValues
import EntityFilter.Proofs.ListedOperators
import EntityFilter.Proofs.LeafAnswers
import EntityFilter.Proofs.OperatorLaws
import EntityFilter.Proofs.NearestDoubles
import EntityFilter.Proofs.IntegerComparisons
import EntityFilter.Proofs.WrittenDates
import EntityFilter.Proofs.ComparedFields
import EntityFilter.Proofs.IgnoredCase
import EntityFilter.Proofs.EqualDocuments
import EntityFilter.Proofs.CalendarUnits
import EntityFilter.Proofs.NamedPeriods
import EntityFilter.Proofs.DateParts
import EntityFilter.Proofs.BucketStarts
import EntityFilter.Proofs.ExtremeValues
import EntityFilter.Proofs.AddedDoubles
import EntityFilter.Proofs.IntegerSums
import EntityFilter.Proofs.ShortestDigits
import EntityFilter.Proofs.WrittenNumbers
import EntityFilter.Proofs.PrintedDocuments
import EntityFilter.Proofs.DistinctValues
import EntityFilter.Proofs.RowOrder
import EntityFilter.Proofs.FirstRows
import EntityFilter.Proofs.Phrases
import EntityFilter.Proofs.ExpandedTexts
import EntityFilter.Proofs.CoercedTimes
import EntityFilter.Proofs.CanonicalTexts
import EntityFilter.Proofs.NodeAddresses
import EntityFilter.Proofs.PrunedFilters
import EntityFilter.Proofs.QuotedTexts
import EntityFilter.Proofs.RenderedNames
import EntityFilter.Proofs.QuotedLiterals
import EntityFilter.Proofs.KeySigns
import EntityFilter.Proofs.CalendarEnds
import EntityFilter.Proofs.AskedPeriods
import EntityFilter.Proofs.CalendarSafety
