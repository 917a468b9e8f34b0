import EntityFilter.Proofs.Counting
import EntityFilter.Proofs.DescribedKeys
import EntityFilter.Proofs.LeafAnswers
import EntityFilter.Proofs.LinkedFilters

/-!
# Two ways to ask for a part of a date

A part of a date is a number that is read off a field.  A filter can ask for it by an operator of
the field, which reads it when the row is tested, or as a projection, which is computed and stored
before.  Both constrain the same number by the same operators, so they say the same
(`Compiler.parts_agree`): either both constrain nothing or both keep the same rows, if no row has a
member under the name of the projection.  Where nothing can be read off the field, because it is
missing, null or no date, the projection is null or is not stored, and neither is a value.

A field without a name is an exception.  The key of the projection is then nothing but an ending,
and is taken for the name of a field (`Compiler.parts_agree_not_always`).
-/

namespace EntityFilter

/-! ## Filters on parts of dates -/

namespace Document

/-- A part of the date in a field, by an operator of the field. -/
def partOf (name : String) (part : DatePart) (operators : Document) : Document :=
  object [(name, object [(part.name, operators)])]

/-- A part of the date in a field, as a projection. -/
def extracting (name : String) (part : DatePart) (operators : Document) : Document :=
  object [(name ++ "_extract", object [("part", text part.name), ("filter", operators)])]

/-- The number that a part of a date is. -/
def part? (part : DatePart) (d : Document) : Option Document :=
  (Moment.ofDocument? d).map fun m => int (m.part part)

end Document

/-- The parts that are asked for by operators. -/
def DatePart.isOperator : DatePart → Bool
  | year | month | day | weekDay | hour => true
  | _ => false

namespace Compiler

/-- Whether the filter that a document writes constrains the rows. -/
def constrains (c : Compiler) (e : Entity) (d : Document) : Bool :=
  ((Filter.ofDocument? d).bind fun f => c.predicate? f e (c.projections f e)).isSome

/-- What the filter that a document writes answers for a row, if it constrains the rows. -/
def answer? (c : Compiler) (e : Entity) (d row : Document) : Option Bool :=
  (Filter.ofDocument? d).bind fun f =>
    (c.predicate? f e (c.projections f e)).map (·.holdsOf (row.annotate (c.projections f e)))

variable {c : Compiler} {e : Entity} {s : Scope} {d row : Document} {f : Filter} {links : List Link}
  {name key : String} {entry : FilterEntry} {part : DatePart} {kind : FieldKind}

lemma isSome_answer? (c : Compiler) (e : Entity) (d row : Document) :
    (c.answer? e d row).isSome = c.constrains e d := by
  unfold answer? constrains
  cases Filter.ofDocument? d with
  | none => rfl
  | some f => simp

lemma keeps_eq_all_answer? (hd : Filter.ofDocument? d = some f) :
    c.keeps e d row = (c.answer? e d row).all id := by
  rw [keeps_eq hd, answer?, hd, Option.bind_some, Option.all_map]
  rfl

/-- An object is read behind a chain, whatever its members are. -/
lemma keeps_behind {members : List (String × Document)} (hlinks : ∀ l ∈ links, l.relation ≠ "") :
    c.keeps e (.behind links (.object members)) row =
      (c.answer? e (.behind links (.object members)) row).all id :=
  keeps_eq_all_answer? (Filter.ofDocument?_behind hlinks (by rw [Filter.ofDocument?]))

/-! ## Entries behind a chain -/

/-- Behind relations that are joined to the row, a filter says what it says itself. -/
lemma predicate?_behind_joined {set : ProjectionSet} {outer : Scope}
    (hs : c.through? outer links = some s) (hjoined : ∀ l ∈ links, l.quantifier = none) :
    (f.behind links).predicate? c set outer = f.predicate? c set s := by
  induction links generalizing outer with
  | nil =>
    obtain rfl := Option.some.inj hs
    rfl
  | cons l links ih =>
    obtain ⟨next, hnext, hs⟩ := Option.bind_eq_some_iff.mp hs
    obtain ⟨hl, hjoined⟩ := List.forall_mem_cons.mp hjoined
    show (l.filter _).predicate? c set outer = _
    rw [Link.predicate?_filter hnext, Link.predicate?, hl]
    exact ih hs hjoined

/-- What an entry behind a chain answers. -/
lemma answer?_behind (hs : c.through? { entity := e } links = some s)
    (hjoined : ∀ l ∈ links, l.relation ≠ "" ∧ l.quantifier = none)
    (hread : FilterEntry.ofDocument? (FilterKey.ofName key) d = some entry) :
    c.answer? e (.behind links (.object [(key, d)])) row =
      (entry.predicate? c (entry.collect c s key .empty) s key).map
        (·.holdsOf (row.annotate (entry.collect c s key .empty))) := by
  have hnode : Filter.ofDocument? (.object [(key, d)]) = some (.node [(key, entry)]) := by
    rw [Filter.ofDocument?, FilterEntry.ofMembers, hread]
    simp only [FilterEntry.ofMembers]
  have hset : c.projections (.behind links (.node [(key, entry)])) e =
      entry.collect c s key .empty := Filter.collect_behind hs
  rw [answer?, Filter.ofDocument?_behind (fun l hl => (hjoined l hl).1) hnode, Option.bind_some,
    hset, predicate?, predicate?_behind_joined hs fun l hl => (hjoined l hl).2,
    Link.predicate?_node]

end Compiler

/-! ## The number that is constrained -/

/-- What operators say about a part of the date in a field of a kind.  Parts of the time are not
read off fields without one. -/
def Leaf.partTest? (l : Leaf) (part : DatePart) (kind : FieldKind) (now : Instant) :
    Option ValueTest :=
  if part.needsTime && !kind.hasTime then none else l.numericTest? now

namespace Leaf

variable {l : Leaf} {kind : FieldKind} {now : Instant} {path : FieldPath} {part : DatePart}
  {operators row : Document}

/-- A leaf on a number reads nothing off it. -/
lemma test?_int (l : Leaf) (stored : Bool) (now : Instant) :
    l.test? stored .int now = l.numericTest? now := by
  unfold test? numericTest?
  refine congrArg allOf? (List.filterMap_congr fun cond hcond => ?_)
  have hsome : (cond.simpleTest? .int now).isSome := (Condition.of_mem_conditions_numeric hcond).2
  cases hop : cond.info.operator with
  | part | length => simp [Condition.simpleTest?, hop] at hsome
  | _ => simp only [Condition.test?, hop]

/-- **The operator of a part** constrains the number that is read off the field. -/
lemma answer?_part (hkind : kind.isTemporal) (hpart : part.isOperator)
    (hoperators : operators.isObject) :
    (single part.name (.ofDocument operators)).answer? kind now path row =
      ((ofDocument operators).partTest? part kind now).map
        (· ((row.fieldValue? path).bind (Document.part? part))) := by
  obtain ⟨info, hinfo, hop, hshape⟩ : ∃ info, kind.family.operator? part.name = some info ∧
      info.operator = .part part ∧ info.shape = .integer := by
    rw [FieldKind.family_of_isTemporal hkind]
    cases part with
    | quarter | week | minute => simp [DatePart.isOperator] at hpart
    | _ => exact ⟨_, rfl, rfl, rfl⟩
  have hliteral : Literal.ofDocument operators = .document operators := by
    cases operators with
    | object members => rfl
    | _ => simp [Document.isObject] at hoperators
  have hof : Condition.ofOperator? kind.family part.name (.document operators) =
      some ⟨info, .document operators⟩ := by
    cases operators with
    | object members => simp [Condition.ofOperator?, hinfo, hshape, OperatorFamily.shaped?]
    | _ => simp [Document.isObject] at hoperators
  have htest : (Condition.mk info (.document operators)).test? true kind now =
      ((ofDocument operators).partTest? part kind now).map fun test value =>
        test (value.bind (Document.part? part)) := by
    simp only [Condition.test?, Condition.reading?, Condition.integerTest?, hop, if_true, partTest?]
    split <;> rfl
  rw [hliteral, answer?_single, hof, Option.bind_some, htest, Option.map_map]
  rfl

end Leaf

namespace Document

variable {path : FieldPath} {part : DatePart} {key : ProjectionKey} {row : Document}

lemma isObject_of_readField? {d : Document} (hpath : path.segments ≠ [])
    (hread : row.readField? path = some d) : row.isObject := by
  unfold readField? at hread
  cases hsegments : path.segments with
  | nil => exact absurd hsegments hpath
  | cons name rest =>
    rw [hsegments] at hread
    cases row with
    | object members => rfl
    | _ => simp [follow?, get?] at hread

/-- **What is stored for a part of a date** is the number that is read off the field, or no
value. -/
lemma value?_extracted (hpath : path.segments ≠ []) (hrow : row.get? key.name = none) :
    (Operand.projection ⟨0, key.name⟩).value?
        (.ofRow (row.annotate (ProjectionSet.empty.insert ⟨key, .dateExtract path part, .root⟩))) =
      (row.fieldValue? path).bind (part? part) := by
  have hannotate : row.annotate (ProjectionSet.empty.insert ⟨key, .dateExtract path part, .root⟩) =
      annotateRow ⟨key, .dateExtract path part, .root⟩ row := rfl
  have hname : (Projection.mk key (.dateExtract path part) .root).name = key.name := rfl
  have hfind : (Operand.field path).find? (.ofRow row) = row.readField? path := rfl
  rw [hannotate, annotateRow, ProjectionExpr.compute?, ProjectionExpr.onMoment?, fieldValue?,
    Operand.value?, Operand.value?, hfind]
  cases hread : row.readField? path with
  | none => simp [Operand.find?, RowContext.ofRow, hrow]
  | some d =>
    have hobject := isObject_of_readField? hpath hread
    have hstored : ∀ value, (row.insert key.name value).get? key.name = some value := by
      cases row with
      | object members => exact fun value => Entries.get?_insert_self _ _ _
      | _ => simp [isObject] at hobject
    simp only [Option.map_some, Operand.find?, RowContext.ofRow, hname, hstored]
    cases hmoment : Moment.ofDocument? d with
    | none => cases d <;> simp [part?, hmoment]
    | some m =>
      cases d with
      | text t => simp [part?, hmoment]
      | _ => simp [Moment.ofDocument?] at hmoment

end Document

/-! ## The two ways -/

namespace Compiler

/-- The key of the projection that a part of a date in a field is. -/
def partKey (s : Scope) (name : String) (part : DatePart) : ProjectionKey :=
  .dateExtract s.path name part

/-- A field of dates or instants that belongs to a row of the filtered entity, or to an entity that
is joined to it by a chain of relations. -/
structure HasDate (c : Compiler) (e : Entity) (links : List Link) (s : Scope) (name : String)
    (f : Field) : Prop where
  /-- The chain leads to the entity of the field. -/
  leads : c.through? { entity := e } links = some s
  /-- All relations of the chain are joined. -/
  joined : ∀ l ∈ links, l.relation ≠ "" ∧ l.quantifier = none
  /-- The entity has the field. -/
  field : s.entity.field? name = some f
  /-- It holds dates or instants. -/
  temporal : f.kind.isTemporal

variable {c : Compiler} {e : Entity} {links : List Link} {s : Scope} {name : String} {f : Field}
  {part : DatePart} {operators row : Document}

namespace HasDate

variable (h : c.HasDate e links s name f)
include h

lemma rows_eq : s.rows = .root := by
  have hbase : s.isBaseRow := (isBaseRow_through? h.leads).mpr ⟨rfl, fun l hl => (h.joined l hl).2⟩
  exact congrArg RelationPath.mk (List.isEmpty_iff.mp hbase)

lemma answer?_partOf (hkey : FilterKey.ofName name = .field name) (hpart : part.isOperator)
    (hoperators : operators.isObject) :
    c.answer? e (.behind links (.partOf name part operators)) row =
      ((Leaf.ofDocument operators).partTest? part f.kind c.now).map
        (· ((row.fieldValue? (s.fieldPath name)).bind (Document.part? part))) := by
  have hread : FilterEntry.ofDocument? (FilterKey.ofName name) (.object [(part.name, operators)]) =
      some (.field name (.single part.name (.ofDocument operators))) := by
    rw [hkey, FilterEntry.ofDocument?]
    rfl
  have hkind : f.kind.isArray = false :=
    Bool.eq_false_iff.mpr (FieldKind.not_isArray_of_isTemporal h.temporal)
  rw [Document.partOf, answer?_behind h.leads h.joined hread,
    ← Leaf.answer?_part h.temporal hpart hoperators]
  exact fieldAnswer?_eq h.field hkind

lemma answer?_extracting (hname : name ≠ "") (hfeature : c.settings.features.dateExtract)
    (hrow : row.get? (partKey s name part).name = none) :
    c.answer? e (.behind links (.extracting name part operators)) row =
      ((Leaf.ofDocument operators).partTest? part f.kind c.now).map
        (· ((row.fieldValue? (s.fieldPath name)).bind (Document.part? part))) := by
  have hread : FilterEntry.ofDocument? (FilterKey.ofName (name ++ "_extract"))
      (.object [("part", .text part.name), ("filter", operators)]) =
        some (.extract ⟨name, part, .ofDocument operators⟩) := by
    rw [FilterKey.ofName_extract hname, FilterEntry.ofDocument?]
    cases part <;> rfl
  have hplan : c.planExtract? s ⟨name, part, .ofDocument operators⟩ =
      if part.needsTime && !f.kind.hasTime then none else some ⟨partKey s name part, .int⟩ := by
    have hbase : s.isBaseRow := by
      rw [Scope.isBaseRow, h.rows_eq]
      rfl
    simp [planExtract?, temporalKind?, hfeature, hbase, h.field, h.temporal, partKey]
  rw [Document.extracting, answer?_behind h.leads h.joined hread, Leaf.partTest?]
  cases hneeds : part.needsTime && !f.kind.hasTime with
  | true =>
    rw [hneeds, if_pos rfl] at hplan
    rw [if_pos rfl, FilterEntry.predicate?, hplan]
    rfl
  | false =>
    rw [hneeds, if_neg Bool.false_ne_true] at hplan
    have hset : FilterEntry.collect c s (name ++ "_extract") .empty
        (.extract ⟨name, part, .ofDocument operators⟩) =
          ProjectionSet.empty.insert
            ⟨partKey s name part, .dateExtract (s.fieldPath name) part, .root⟩ := by
      simp only [FilterEntry.collect, collectOwn, hplan, add, h.rows_eq]
    have hpath : (s.fieldPath name).segments ≠ [] := by
      simp [Scope.fieldPath, FieldPath.under]
    rw [if_neg Bool.false_ne_true, hset, FilterEntry.predicate?, hplan, Option.bind_some,
      projected?, ProjectionSet.lookup?_insert_empty, Option.bind_some,
      ← Document.value?_extracted hpath hrow, ← Leaf.test?_int _ false]
    exact Leaf.map_holds_predicate?_projection _ _

end HasDate

/-- **The two ways agree.**  An operator of the field and a projection constrain the same rows, if
the field has a name of its own, that is, a name that is read as a field and is not empty. -/
theorem parts_agree (h : c.HasDate e links s name f) (hkey : FilterKey.ofName name = .field name)
    (hname : name ≠ "") (hfeature : c.settings.features.dateExtract) (hpart : part.isOperator)
    (hoperators : operators.isObject) :
    (c.constrains e (.behind links (.partOf name part operators)) ↔
      c.constrains e (.behind links (.extracting name part operators))) ∧
    ∀ row : Document, row.get? (partKey s name part).name = none →
      c.keeps e (.behind links (.partOf name part operators)) row =
        c.keeps e (.behind links (.extracting name part operators)) row := by
  have hanswer : ∀ row : Document, row.get? (partKey s name part).name = none →
      c.answer? e (.behind links (.partOf name part operators)) row =
        c.answer? e (.behind links (.extracting name part operators)) row := fun row hrow =>
    (h.answer?_partOf hkey hpart hoperators).trans (h.answer?_extracting hname hfeature hrow).symm
  constructor
  · rw [← isSome_answer? c e _ .null, ← isSome_answer? c e _ .null, hanswer .null rfl]
  · intro row hrow
    have hjoined : ∀ l ∈ links, l.relation ≠ "" := fun l hl => (h.joined l hl).1
    rw [Document.partOf, Document.extracting, keeps_behind hjoined, keeps_behind hjoined]
    exact congrArg (Option.all id) (hanswer row hrow)

end Compiler

/-! ## Letters in boxes -/

namespace Archive

/-- A letter has a time at which it was sent, and lies in a box. -/
def letter : Entity :=
  (Entity.withField { name := "Letter" } { name := "sent", kind := .dateTime }).withRelation
    { name := "box", cardinality := .one, target := "Box" }

/-- A box has a date at which it was closed, and another one under a name without characters. -/
def box : Entity :=
  (Entity.withField { name := "Box" } { name := "closed", kind := .date }).withField
    { name := "", kind := .date }

def compiler : Compiler :=
  { catalog := (Catalog.withEntity {} letter).withEntity box
    settings := { features := .all }
    now := ⟨0, 0⟩ }

/-- The box of a letter. -/
def boxOf : Link := { relation := "box" }

def boxScope : Scope := ({ entity := letter } : Scope).join "box" box

/-- In the second half of the year. -/
def late : Document := .object [("gte", .int 7)]

end Archive

namespace Compiler

open Archive

/-- The box of a letter was closed in August. -/
theorem parts_agree_box :
    let row := Document.object [("box", .object [("closed", .text "2024-08-01")])]
    compiler.HasDate letter [boxOf] boxScope "closed" { name := "closed", kind := .date } ∧
      compiler.keeps letter (.behind [boxOf] (.partOf "closed" .month late)) row = true ∧
      compiler.keeps letter (.behind [boxOf] (.extracting "closed" .month late)) row = true := by
  intro row
  have hdate : compiler.HasDate letter [boxOf] boxScope "closed"
      { name := "closed", kind := .date } :=
    ⟨rfl, by simp [boxOf], rfl, rfl⟩
  have hkey : FilterKey.ofName "closed" = .field "closed" := by decide
  have hagree := (parts_agree hdate hkey (by decide) rfl (show DatePart.month.isOperator from rfl)
    (show late.isObject from rfl)).2 row rfl
  have hanswer : compiler.answer? letter (.behind [boxOf] (.partOf "closed" .month late)) row =
      some true := by
    rw [hdate.answer?_partOf hkey rfl rfl]
    decide +kernel
  have hkeeps : compiler.keeps letter (.behind [boxOf] (.partOf "closed" .month late)) row =
      true := (keeps_behind (by simp [boxOf])).trans (congrArg (Option.all id) hanswer)
  exact ⟨hdate, hkeeps, hagree ▸ hkeeps⟩

/-- A field without a name cannot be asked for as a projection. -/
theorem parts_agree_not_always :
    ¬∀ (c : Compiler) (e : Entity) (links : List Link) (s : Scope) (name : String) (f : Field)
      (part : DatePart) (operators : Document), c.HasDate e links s name f →
      FilterKey.ofName name = .field name → c.settings.features.dateExtract → part.isOperator →
      operators.isObject →
      (c.constrains e (.behind links (.partOf name part operators)) ↔
        c.constrains e (.behind links (.extracting name part operators))) := by
  intro h
  have hdate : compiler.HasDate letter [boxOf] boxScope "" { name := "", kind := .date } :=
    ⟨rfl, by simp [boxOf], rfl, rfl⟩
  have hkey : FilterKey.ofName "" = .field "" := by decide
  have hpart : compiler.constrains letter (.behind [boxOf] (.partOf "" .month late)) = true := by
    rw [← isSome_answer? _ _ _ .null, hdate.answer?_partOf hkey rfl rfl]
    rfl
  have hextract : compiler.constrains letter (.behind [boxOf] (.extracting "" .month late)) =
      false := by
    have hread : FilterEntry.ofDocument? (FilterKey.ofName ("" ++ "_extract"))
        (.object [("part", .text DatePart.month.name), ("filter", late)]) =
          some (.field "_extract"
            (.ofDocument (.object [("part", .text DatePart.month.name), ("filter", late)]))) := by
      have hending : FilterKey.ofName ("" ++ "_extract") = .field "_extract" := by decide
      rw [hending, FilterEntry.ofDocument?]
    rw [← isSome_answer? _ _ _ .null, Document.extracting,
      answer?_behind hdate.leads hdate.joined hread]
    rfl
  have hboth :=
    (h compiler letter [boxOf] boxScope "" _ .month late hdate hkey rfl rfl rfl).mp hpart
  rw [hextract] at hboth
  contradiction

end Compiler

end EntityFilter
