import EntityFilter.OrderedMap
import EntityFilter.Text.Segment

/-!
# Schemas of filters

A schema spells out every filter that can be written on an entity.  It is a list of input objects:
the filter on the entity itself, the filters on the entities that its relations lead to, and the
objects that hold the operators of a field.  Objects refer to each other by name, so they may refer
to themselves, and no two objects of a schema share a name.  While a schema is made, objects that
have no fields yet are referred to by number, so types, fields and objects leave open what they
refer to each other by.

`InputTypes` is a list that grows: `define` adds an object at the end unless its name is taken.  A
`FilterSchema` is the finished list together with the name of its root.
-/

namespace EntityFilter

/-- A type of plain values. -/
inductive Scalar where
  | text
  | int
  | float
  | boolean
  | date
  | dateTime
  | id
  | uuid
  | json
  deriving DecidableEq, Repr

/-- The name of a scalar. -/
def Scalar.name : Scalar → String
  | text => "String"
  | int => "Int"
  | float => "Float"
  | boolean => "Boolean"
  | date => "Date"
  | dateTime => "DateTime"
  | id => "ID"
  | uuid => "UUID"
  | json => "JSON"

/-- The type of a field of an input object. -/
inductive InputType (ρ : Type := String) where
  /-- Plain values. -/
  | scalar (scalar : Scalar)
  /-- The input object of a name, or what else it is referred to by. -/
  | object (name : ρ)
  /-- A list. -/
  | list (element : InputType ρ)
  deriving DecidableEq, Repr

namespace InputType

variable {ρ σ : Type}

/-- The input object that a type refers to, also as the elements of a list. -/
def objectName? : InputType ρ → Option ρ
  | scalar _ => none
  | object name => some name
  | list element => element.objectName?

/-- Refer to objects in another way. -/
def map (f : ρ → σ) : InputType ρ → InputType σ
  | scalar s => .scalar s
  | object name => .object (f name)
  | list element => .list (element.map f)

/-- The text of a type. -/
def render : InputType → String
  | scalar s => s.name
  | object name => name
  | list element => "[" ++ element.render ++ "]"

end InputType

/-- A field of an input object. -/
structure InputField (ρ : Type := String) where
  /-- The name. -/
  name : String
  /-- The type. -/
  type : InputType ρ
  /-- A description. -/
  description : Option String := none
  deriving DecidableEq, Repr

namespace InputField

/-- Refer to objects in another way. -/
def map {ρ σ : Type} (f : ρ → σ) (field : InputField ρ) : InputField σ :=
  { name := field.name, type := field.type.map f, description := field.description }

/-- The field in one line. -/
def signature (f : InputField) : String := f.name ++ ": " ++ f.type.render

/-- The definition of a field, with its description in front.  A description stands between double
quotes and has single ones inside. -/
def render (f : InputField) : String :=
  (match f.description with
    | some text => "  \"" ++ Text.replace text "\"" "'" ++ "\"\n"
    | none => "") ++
  "  " ++ f.signature ++ "\n"

end InputField

/-- A type whose values consist of fields. -/
structure InputObject (ρ : Type := String) where
  /-- The name. -/
  name : String
  /-- The fields, by name. -/
  fields : OrderedMap String (InputField ρ) := .empty
  /-- Whether the fields are still to come. -/
  isPlaceholder : Bool := false
  deriving DecidableEq

namespace InputObject

variable {ρ σ : Type}

/-- Refer to objects in another way. -/
def map (f : ρ → σ) (o : InputObject ρ) : InputObject σ :=
  { name := o.name, fields := o.fields.mapValues (.map f), isPlaceholder := o.isPlaceholder }

/-- The object with the given fields.  Of two fields of one name the later takes the place of the
earlier. -/
def ofFields (name : String) (fields : List (InputField ρ)) : InputObject ρ :=
  { name, fields := .ofList (fields.map fun f => (f.name, f)) }

/-- The field of a name. -/
def field? (o : InputObject ρ) (name : String) : Option (InputField ρ) := o.fields.get? name

/-- The definition of an object. -/
def render (o : InputObject) : String :=
  "input " ++ o.name ++ " \x7b\n" ++ String.join (o.fields.values.map InputField.render) ++ "\x7d\n"

end InputObject

/-- Input objects of distinct names, in the order of their definition. -/
structure InputTypes where
  /-- The objects. -/
  objects : List InputObject := []
  /-- No name occurs twice. -/
  nodup : (objects.map InputObject.name).Nodup := by simp
  deriving DecidableEq

namespace InputTypes

/-- The names, in order. -/
def names (ts : InputTypes) : List String := ts.objects.map InputObject.name

/-- The object of a name. -/
def get? (ts : InputTypes) (name : String) : Option InputObject :=
  ts.objects.find? (·.name = name)

/-- The place of an object. -/
def indexOf? (ts : InputTypes) (name : String) : Option Nat :=
  ts.objects.findIdx? (·.name = name)

/-- Define an object, unless its name is taken. -/
def define (ts : InputTypes) (o : InputObject) : InputTypes :=
  if h : o.name ∈ ts.names then ts
  else
    ⟨ts.objects ++ [o], by
      rw [List.map_append, List.map_singleton]
      exact List.nodup_append.2 ⟨ts.nodup, by simp, fun a ha b hb hab =>
        h (List.mem_singleton.1 hb ▸ hab ▸ ha)⟩⟩

theorem names_define (ts : InputTypes) (o : InputObject) :
    (ts.define o).names = if o.name ∈ ts.names then ts.names else ts.names ++ [o.name] := by
  unfold define
  split <;> simp [names, *]

end InputTypes

/-- The input objects of the filters on an entity. -/
structure FilterSchema where
  /-- The objects. -/
  types : InputTypes
  /-- The name of the filter on the entity itself. -/
  root : String
  deriving DecidableEq

namespace FilterSchema

/-- The object of the filter on the entity itself. -/
def rootObject? (s : FilterSchema) : Option InputObject := s.types.get? s.root

/-- The definitions of all objects. -/
def render (s : FilterSchema) : String := String.join (s.types.objects.map InputObject.render)

end FilterSchema

end EntityFilter
