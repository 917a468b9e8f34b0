import EntityFilter.Filter.Measure
import EntityFilter.Pattern.Shape
import EntityFilter.Pattern.Size

/-!
# Limits on filters

A filter comes from outside, so what it may ask for is limited before anything is done with it:
regular expressions must be short, must compile and must not invite backtracking, and the filter
must be neither too deep nor too large.  `Limits.check` looks at the regular expressions first, in
the order in which they are met, then at the depth, then at the number of clauses.
-/

namespace EntityFilter

/-- What a filter may ask for. -/
structure Limits where
  /-- The greatest length of a regular expression, in characters. -/
  maxPatternLength : Nat := 500
  /-- The deepest level of a filter. -/
  maxDepth : Nat := 10
  /-- The greatest number of clauses. -/
  maxClauses : Nat := 50
  deriving DecidableEq, Repr, Inhabited

/-- Why a regular expression is not safe. -/
inductive UnsafeReason where
  /-- It does not compile. -/
  | uncompiled
  /-- It invites backtracking. -/
  | shape (danger : Pattern.Danger)
  /-- What somebody else says. -/
  | stated (text : String)
  deriving DecidableEq, Repr

/-- The wording of a reason.  How an expression that does not compile is told about is left to what
compiles expressions. -/
def UnsafeReason.message (wording : String → String) (pattern : String) : UnsafeReason → String
  | uncompiled => wording pattern
  | shape danger => danger.message
  | stated text => text

/-- Which limit a filter exceeds. -/
inductive LimitError where
  | patternTooLong (length max : Nat)
  | unsafePattern (pattern : String) (reason : UnsafeReason)
  | tooDeep (depth max : Nat)
  | tooManyClauses (count max : Nat)
  deriving DecidableEq, Repr

namespace LimitError

/-- The wording of an error, given that of expressions that do not compile. -/
def message (wording : String → String) : LimitError → String
  | patternTooLong length max =>
    s!"regex pattern is {length} characters long, maximum is {max}"
  | unsafePattern pattern reason =>
    s!"unsafe regex pattern `{pattern}`: {reason.message wording pattern}"
  | tooDeep depth max => s!"filter depth {depth} exceeds maximum of {max}"
  | tooManyClauses count max => s!"filter has {count} clauses, maximum is {max}"

end LimitError

namespace Limits

/-- Why a regular expression that is short enough is not safe. -/
def unsafeReason? (pattern : String) : Option UnsafeReason :=
  match Pattern.compile? pattern with
  | none => some .uncompiled
  | some _ => (Pattern.danger? pattern).map .shape

/-- The error of a regular expression. -/
def patternError? (l : Limits) (pattern : String) : Option LimitError :=
  if l.maxPatternLength < pattern.length then
    some (.patternTooLong pattern.length l.maxPatternLength)
  else (unsafeReason? pattern).map (.unsafePattern pattern)

/-- The first error of a filter. -/
def error? (l : Limits) (f : Filter) : Option LimitError :=
  match f.patterns.findSome? l.patternError? with
  | some e => some e
  | none =>
    if l.maxDepth < f.depth then some (.tooDeep f.depth l.maxDepth)
    else if l.maxClauses < f.clauses then some (.tooManyClauses f.clauses l.maxClauses)
    else none

/-- Accept a filter or say which limit it exceeds. -/
def check (l : Limits) (f : Filter) : Except LimitError Unit :=
  match l.error? f with
  | some e => .error e
  | none => .ok ()

end Limits

end EntityFilter
