import EntityFilter.Description
import EntityFilter.Document

/-!
# Descriptions as documents

The document of a description lists fields, relations and other keys with what is known about them.
The values that a field is restricted to and its extra keys are left out where there are none.
-/

namespace EntityFilter

/-- The document of an operator. -/
def OperatorInfo.toDocument (i : OperatorInfo) : Document :=
  .object [("name", .text i.name), ("operand", .text i.shape.name),
    ("description", .text i.description)]

/-- The document of the description of a field. -/
def FieldDescription.toDocument (d : FieldDescription) : Document :=
  .object (
    [("name", .text d.field.name), ("kind", .text d.field.kind.name),
      ("nullable", .bool d.field.nullable)] ++
    (match d.field.choices with
      | some choices => [("choices", .ofTexts choices)]
      | none => []) ++
    [("operators", .array (d.operators.map OperatorInfo.toDocument))] ++
    if d.extraKeys.isEmpty then [] else [("extra_keys", .ofTexts d.extraKeys)])

/-- The document of the description of a relation. -/
def RelationDescription.toDocument (d : RelationDescription) : Document :=
  .object [("name", .text d.relation.name), ("target", .text d.relation.target),
    ("cardinality", .text d.relation.cardinality.name), ("keys", .ofTexts d.keys)]

/-- The document of a key. -/
def KeyDescription.toDocument (d : KeyDescription) : Document :=
  .object [("key", .text d.key), ("description", .text d.description)]

/-- The members of the document of a description. -/
def EntityDescription.members (d : EntityDescription) : List (String × Document) :=
  [("entity", .text d.entity),
   ("fields", .array (d.fields.map FieldDescription.toDocument)),
   ("relations", .array (d.relations.map RelationDescription.toDocument)),
   ("special_keys", .array (d.specialKeys.map KeyDescription.toDocument))]

end EntityFilter
