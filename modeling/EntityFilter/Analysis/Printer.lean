import EntityFilter.Analysis

/-!
# Analyses as documents

The document of an analysis has everything that follows from what the filter does, advice included.
-/

namespace EntityFilter.Analysis

/-- The members of the document of an analysis, with advice for what a filter may ask for. -/
def members (a : Analysis) (l : Limits) : List (String × Document) :=
  [("entity", .text a.entity), ("select_related", .ofTexts a.selectRelated),
   ("prefetch_related", .ofTexts a.prefetchRelated), ("clause_count", .int a.clauses),
   ("max_depth", .int a.depth), ("projection_count", .int a.projections),
   ("pattern_count", .int a.patterns), ("points", .int a.points), ("cost", .text a.cost.name),
   ("hints", .ofTexts (a.hints l))]

end EntityFilter.Analysis
