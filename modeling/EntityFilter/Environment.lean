import EntityFilter.Text.Segment

/-!
# References to the environment

A text may refer to the values of an environment: the name of a value stands between braces behind
a dollar sign.  The references are those of the text as it is given, from the left and without
overlap.  Each of them in turn is replaced wherever it occurs, also inside what an earlier one has
been replaced by.  A reference to a name without a value stays as it is.
-/

namespace EntityFilter

/-- Values by name. -/
abbrev Environment := String → Option String

namespace Environment

/-- The environment without values. -/
def empty : Environment := fun _ => none

/-- The name in the reference that a text begins with.  A name is not empty and ends at the first
closing brace. -/
def nameInFront? : List Char → Option (List Char)
  | '$' :: '{' :: cs =>
    let name := cs.takeWhile (· ≠ '}')
    if name.isEmpty || name.length = cs.length then none else some name
  | _ => none

/-- The names that a text refers to; `skip` characters still belong to the last reference found. -/
def namesFrom : Nat → List Char → List (List Char)
  | _, [] => []
  | skip + 1, _ :: cs => namesFrom skip cs
  | 0, c :: cs =>
    match nameInFront? (c :: cs) with
    | some name => name :: namesFrom (name.length + 2) cs
    | none => namesFrom 0 cs

/-- The names that a text refers to, in order. -/
def names (s : String) : List String := (namesFrom 0 s.toList).map String.ofList

/-- The reference to a name. -/
def reference (name : String) : String := "$\x7b" ++ name ++ "\x7d"

/-- Replace the references to a name, if it has a value. -/
def replaceName (env : Environment) (s name : String) : String :=
  match env name with
  | some value => Text.replace s (reference name) value
  | none => s

/-- Replace the references of a text by the values of the environment. -/
def expand (env : Environment) (s : String) : String := (names s).foldl env.replaceName s

end Environment

end EntityFilter
