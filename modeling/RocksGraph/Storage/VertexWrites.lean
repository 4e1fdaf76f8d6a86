import RocksGraph.Foundation.Arrange
import RocksGraph.Foundation.Transition
import RocksGraph.Storage.UniqueLookup

/-! Changes of labels and properties of a vertex (`graph_entity.cc`,
`transaction.cc`, `vector_property.cc`).

A property that is a vector field of some label of the vertex is stored in one
vector record for every such label, and any other property in one scalar record.
A change reads what the indexes need, tells them the labels and properties before
and after it, and then writes its records. Labels and properties are given by
their ids. -/

set_option autoImplicit false

namespace RocksGraph.Storage

open Foundation Catalog List Option Vertex Table

/-- What the conversions to `float` and back to `double` make of a number. -/
structure Rounding where
  double : BitVec 64 → BitVec 64
  integer : BitVec 64 → BitVec 64

/-- Numbers that `float` holds exactly stay as they are. -/
def Rounding.exact : Rounding := ⟨id, id⟩

def Rounding.component (rounding : Rounding) : Value → Option (BitVec 64)
  | .double bits => some (rounding.double bits)
  | .integer value => some (rounding.integer value)
  | _ => none

/-- `TryParseVectorValue`; the components are read as doubles again. -/
def tryParseVectorValue (rounding : Rounding) (value : Value) (dimensions : Nat) : Option (List (BitVec 64)) :=
  match value with
  | .list items => if items.length = dimensions then items.mapM rounding.component else none
  | _ => none

def parseVectorValue (rounding : Rounding) (value : Value) (dimensions : Nat) :
    Except Catalog.Error (List (BitVec 64)) :=
  match tryParseVectorValue rounding value dimensions with
  | some vector => .ok vector
  | none => .error (.invalid s!"vector field value should be a numeric list with dimension {dimensions}")

def labelFields (info : MetaInfo) (labels : List Nat) : List VectorField :=
  info.vectorFields.filter fun field => labels.contains field.labelId

/-- The arguments of `UpdateVertexIndexes` that the property and full-text indexes
read. -/
structure IndexChange where
  oldLabels : List Nat
  newLabels : List Nat
  oldProperties : Table Nat SizedValue
  newProperties : Table Nat SizedValue
  touched : List Nat

def labelsChanged (old new : List Nat) : Bool := !(old.all new.contains && new.all old.contains)

def collectVertexIndexPropertyIds (info : MetaInfo) (old new touched : List Nat) : List Nat :=
  if !labelsChanged old new && touched.isEmpty then []
  else
    let propertyIndexes := info.vertexPropertyIndexes.filter fun index =>
      (old.contains index.ownerId || new.contains index.ownerId) &&
        (labelsChanged old new || index.propertyIds.any touched.contains)
    let fullTextIndexes := info.fullTextIndexes.filter fun index =>
      (old.any index.labelIds.contains || new.any index.labelIds.contains) &&
        (labelsChanged old new || touched.any index.propertyIds.contains)
    let vectorIndexes := info.vectorIndexes.filter fun index =>
      (old.contains index.labelId || new.contains index.labelId) &&
        (labelsChanged old new || touched.contains index.propertyId)
    propertyIndexes.flatMap PropertyIndex.propertyIds ++ fullTextIndexes.flatMap FullTextIndex.propertyIds ++
      vectorIndexes.map VectorIndex.propertyId

namespace Vertex

def loadSerialized (vertex : Vertex) (pids : List Nat) : Table Nat SizedValue :=
  vertex.scalars.filter fun pid _ => pids.contains pid

def deleteVectors (vertex : Vertex) (keys : List (Nat × Nat)) : Vertex :=
  { vertex with vectors := vertex.vectors.filter fun entry => !keys.contains entry.1 }

def putVector (vertex : Vertex) (record : (Nat × Nat) × List (BitVec 64)) : Vertex :=
  { vertex with vectors := record :: (vertex.deleteVectors [record.1]).vectors }

def putVectors (vertex : Vertex) (records : List ((Nat × Nat) × List (BitVec 64))) : Vertex :=
  records.foldl putVector vertex

/-- The vector of a property for all fields it has to fit; the last one counts. -/
def parseFields (rounding : Rounding) (value : Value) : List VectorField → Except Catalog.Error (List (BitVec 64))
  | [] => .ok []
  | [field] => parseVectorValue rounding value field.dimensions
  | field :: rest => do
    let _ ← parseVectorValue rounding value field.dimensions
    parseFields rounding value rest

variable (rounding : Rounding) (info : MetaInfo) (vertex : Vertex)

def vectorRecords (entry : Nat × SizedValue) :
    Except Catalog.Error (List ((Nat × Nat) × List (BitVec 64))) := do
  let vector ← parseFields rounding entry.2.val (vertex.vectorFields info entry.1)
  return (vertex.vectorFields info entry.1).map fun field => ((field.labelId, entry.1), vector)

variable (values : Table Nat SizedValue)

def parseVectors : Except Catalog.Error (List ((Nat × Nat) × List (BitVec 64))) := do
  let records ← values.entries.mapM (vertex.vectorRecords rounding info)
  return records.flatten

def scalarValues : Table Nat SizedValue :=
  values.filter fun pid _ => (vertex.vectorFields info pid).isEmpty

def writeProperties : Except Catalog.Error Vertex := do
  let vectors ← vertex.parseVectors rounding info values
  return { vertex with scalars := vertex.scalars.overlay (vertex.scalarValues info values) }.putVectors vectors

/-- `SetProperties`. A scalar record of a property that is a vector field now is
hidden from the indexes, and stays. -/
def setProperties : Except Catalog.Error (Vertex × Option IndexChange) :=
  if values.entries.isEmpty then .ok (vertex, none)
  else do
    let next ← vertex.writeProperties rounding info values
    let pids := values.entries.map Prod.fst
    let required := collectVertexIndexPropertyIds info vertex.labels vertex.labels pids
    let properties := vertex.loadSerialized required
    let updated := (properties.overlay (vertex.scalarValues info values)).filter fun pid _ =>
      !(values.contains pid && !(vertex.vectorFields info pid).isEmpty)
    return (next, if required.isEmpty then none
      else some ⟨vertex.labels, vertex.labels, properties, updated, pids⟩)

variable (labels : List Nat)

/-- The properties of `CreateVertex` are written as those of a vertex without records. -/
def create (values : Table Nat SizedValue) :
    Except Catalog.Error (Vertex × Option IndexChange) := do
  let next ← writeProperties rounding info ⟨labels, .empty, []⟩ values
  return (next, some ⟨[], labels, .empty, next.scalars, values.entries.map Prod.fst⟩)

/-- The vector `AddLabels` gives to a field. One that is stored counts, and otherwise
the scalar record is parsed, once for a property. -/
def fieldVector (field : VectorField)
    (parsed : List (Nat × List (BitVec 64))) : Except Catalog.Error (Option (List (BitVec 64))) :=
  match (vertex.loadVector info field.propertyId).or (parsed.lookup field.propertyId) with
  | some vector => .ok (some vector)
  | none =>
    match vertex.scalars.get field.propertyId with
    | some value => some <$> parseVectorValue rounding value.val field.dimensions
    | none => .ok none

/-- The records that `AddLabels` writes for the fields of all labels. -/
def copyToFields (rounding : Rounding) (info : MetaInfo) (vertex : Vertex) :
    List VectorField → List (Nat × List (BitVec 64)) →
      Except Catalog.Error (List ((Nat × Nat) × List (BitVec 64)))
  | [], _ => .ok []
  | field :: rest, parsed => do
    match ← vertex.fieldVector rounding info field parsed with
    | none => vertex.copyToFields rounding info rest parsed
    | some vector =>
      check (vector.length = field.dimensions)
        (.invalid (s!"vector field [label:{field.label}, property:{field.property}] dimension " ++
          s!"mismatch, expect {field.dimensions}, actual {vector.length}"))
      let records ← vertex.copyToFields rounding info rest ((field.propertyId, vector) :: parsed)
      return ((field.labelId, field.propertyId), vector) :: records

def newLabels : List Nat :=
  labels.dedup.filter fun lid => !vertex.labels.contains lid

def addLabels : Except Catalog.Error (Vertex × Option IndexChange) :=
  if (vertex.newLabels labels).isEmpty then .ok (vertex, none)
  else do
    let updated : Vertex := { vertex with labels := vertex.labels ++ vertex.newLabels labels }
    let fields := labelFields info updated.labels
    let required := collectVertexIndexPropertyIds info vertex.labels updated.labels [] ++ fields.map VectorField.propertyId
    let records ← updated.copyToFields rounding info fields []
    let properties := vertex.loadSerialized required
    let rest := properties.filter fun pid _ => !(fields.map VectorField.propertyId).contains pid
    return (updated.putVectors records, if required.isEmpty then none
      else some ⟨vertex.labels, updated.labels, properties, rest, []⟩)

def deleteLabels : Vertex × Option IndexChange :=
  let removed := vertex.labels.filter labels.contains
  if removed.isEmpty then (vertex, none)
  else
    let remaining := vertex.labels.filter fun lid => !labels.contains lid
    let keys := (labelFields info removed).map fun field => (field.labelId, field.propertyId)
    let required := collectVertexIndexPropertyIds info vertex.labels remaining []
    let properties := vertex.loadSerialized required
    ({ vertex.deleteVectors keys with labels := remaining }, if required.isEmpty then none
      else some ⟨vertex.labels, remaining, properties, properties, []⟩)

/-- `RemoveProperty`. For a vector field the indexes see no other property. -/
def removeProperty (pid : Nat) : Vertex × Option IndexChange :=
  let fields := vertex.vectorFields info pid
  if !fields.isEmpty then
    let properties := vertex.loadSerialized [pid]
    if properties.entries.isEmpty ∧ vertex.loadVector info pid = none then (vertex, none)
    else
      let keys := fields.map fun field => (field.labelId, pid)
      ({ vertex.deleteVectors keys with scalars := vertex.scalars.erase pid },
        some ⟨vertex.labels, vertex.labels, properties, .empty, [pid]⟩)
  else
    let required := collectVertexIndexPropertyIds info vertex.labels vertex.labels [pid]
    let next := { vertex with scalars := vertex.scalars.erase pid }
    if required.isEmpty then
      if vertex.scalars.contains pid then (next, none) else (vertex, none)
    else
      let properties := vertex.loadSerialized required
      if properties.contains pid then
        (next, some ⟨vertex.labels, vertex.labels, properties, properties.erase pid, [pid]⟩)
      else (vertex, none)

/-- The fields of the labels that have a record (`LoadAllVertexVectorProperties`). -/
def storedFields : List VectorField :=
  (labelFields info vertex.labels).filter fun field => (vertex.vectors.lookup (field.labelId, field.propertyId)).isSome

def removeAllProperty : Vertex × Option IndexChange :=
  let stored := vertex.storedFields info
  let pids := vertex.scalars.entries.map Prod.fst ++ stored.map VectorField.propertyId
  let keys := stored.map fun field => (field.labelId, field.propertyId)
  ({ vertex.deleteVectors keys with scalars := .empty },
    some ⟨vertex.labels, vertex.labels, vertex.scalars, .empty, pids⟩)

/-- What `Delete` tells the indexes before it deletes all records. -/
def delete : IndexChange :=
  ⟨vertex.labels, [], vertex.scalars, .empty,
    vertex.scalars.entries.map Prod.fst ++ (vertex.storedFields info).map VectorField.propertyId⟩

end Vertex

inductive VertexCall where
  | setProperties (values : Table Nat SizedValue)
  | removeProperty (pid : Nat)
  | removeAllProperty
  | addLabels (labels : List Nat)
  | deleteLabels (labels : List Nat)

namespace Vertex

def perform (rounding : Rounding) (info : MetaInfo) (vertex : Vertex) :
    VertexCall → Except Catalog.Error (Vertex × Option IndexChange)
  | .setProperties values => vertex.setProperties rounding info values
  | .removeProperty pid => .ok (vertex.removeProperty info pid)
  | .removeAllProperty => .ok (vertex.removeAllProperty info)
  | .addLabels labels => vertex.addLabels rounding info labels
  | .deleteLabels labels => .ok (vertex.deleteLabels info labels)

theorem lookup_filter (keep : Nat × Nat → Bool) (records : List ((Nat × Nat) × List (BitVec 64))) (key : Nat × Nat) :
    (records.filter fun record => keep record.1).lookup key = if keep key then records.lookup key else none := by
  induction records with
  | nil => simp
  | cons record rest ih =>
    rw [filter_cons, apply_ite (lookup key), lookup_cons, lookup_cons, ih]
    by_cases same : key = record.1
    · simp +contextual [same]
    · rw [beq_false_of_ne same, ite_self]

variable (vertex : Vertex)

@[simp] theorem lookup_deleteVectors (keys : List (Nat × Nat)) (key : Nat × Nat) :
    (vertex.deleteVectors keys).vectors.lookup key = if key ∈ keys then none else vertex.vectors.lookup key := by
  rw [deleteVectors, lookup_filter fun key => !keys.contains key]
  by_cases deleted : key ∈ keys <;> simp

@[simp] theorem putVectors_keeps (records : List ((Nat × Nat) × List (BitVec 64))) :
    (vertex.putVectors records).labels = vertex.labels ∧ (vertex.putVectors records).scalars = vertex.scalars := by
  induction records generalizing vertex with
  | nil => exact ⟨rfl, rfl⟩
  | cons record rest ih => exact ih (vertex.putVector record)

theorem of_lookup_putVectors {vertex : Vertex} {records : List ((Nat × Nat) × List (BitVec 64))} {key : Nat × Nat}
    {vector : List (BitVec 64)} (found : (vertex.putVectors records).vectors.lookup key = some vector) :
    (key, vector) ∈ records ∨
      (∀ record ∈ records, record.1 ≠ key) ∧ vertex.vectors.lookup key = some vector := by
  induction records generalizing vertex with
  | nil => exact .inr ⟨by simp, found⟩
  | cons record rest ih =>
    rcases ih found with later | ⟨untouched, before⟩
    · exact .inl (mem_cons_of_mem _ later)
    rw [putVector, lookup_cons] at before
    split at before
    next same =>
      cases before
      exact .inl (by simp [eq_of_beq same])
    next differs =>
      have apart := ne_of_beq_false differs
      rw [lookup_deleteVectors, if_neg (by simpa using apart)] at before
      exact .inr ⟨forall_mem_cons.mpr ⟨apart.symm, untouched⟩, before⟩

end Vertex

section Fields

variable {info : MetaInfo} {vertex : Vertex}

def HasField (info : MetaInfo) (labels : List Nat) (lid pid : Nat) : Prop :=
  lid ∈ labels ∧ (info.getVertexVectorField lid pid).isSome

variable {lid pid : Nat} {field : VectorField}

theorem getVertexVectorField_spec (found : info.getVertexVectorField lid pid = some field) :
    field ∈ info.vectorFields ∧ field.labelId = lid ∧ field.propertyId = pid :=
  ⟨mem_of_find?_eq_some found, by simpa using find?_some found⟩

theorem mem_vectorFields : field ∈ vertex.vectorFields info pid ↔
    ∃ lid ∈ vertex.labels, info.getVertexVectorField lid pid = some field := by
  simp [vectorFields]

theorem hasField_of_mem (mem : field ∈ vertex.vectorFields info pid) :
    HasField info vertex.labels field.labelId pid := by
  obtain ⟨lid, labelled, found⟩ := mem_vectorFields.mp mem
  rw [(getVertexVectorField_spec found).2.1]
  exact ⟨labelled, isSome_iff_exists.mpr ⟨field, found⟩⟩

theorem HasField.exists_mem (has : HasField info vertex.labels lid pid) :
    ∃ field ∈ vertex.vectorFields info pid, field.labelId = lid := by
  obtain ⟨field, found⟩ := isSome_iff_exists.mp has.2
  exact ⟨field, mem_vectorFields.mpr ⟨lid, has.1, found⟩, (getVertexVectorField_spec found).2.1⟩

theorem isEmpty_vectorFields :
    (vertex.vectorFields info pid).isEmpty = true ↔ ∀ lid, ¬ HasField info vertex.labels lid pid := by
  constructor
  · intro empty lid has
    obtain ⟨field, mem, -⟩ := has.exists_mem
    rw [List.isEmpty_iff.mp empty] at mem
    cases mem
  · intro nothing
    rw [List.isEmpty_iff, eq_nil_iff_forall_not_mem]
    exact fun field mem => nothing _ (hasField_of_mem mem)

theorem mem_labelFields {labels : List Nat} :
    (∃ field ∈ labelFields info labels, field.labelId = lid ∧ field.propertyId = pid) ↔
      HasField info labels lid pid := by
  constructor
  · rintro ⟨field, mem, rfl, rfl⟩
    obtain ⟨inCatalog, labelled⟩ := mem_filter.mp mem
    exact ⟨by simpa using labelled, find?_isSome.mpr ⟨_, inCatalog, by simp⟩⟩
  · rintro ⟨labelled, present⟩
    obtain ⟨field, found⟩ := isSome_iff_exists.mp present
    obtain ⟨inCatalog, rfl, rfl⟩ := getVertexVectorField_spec found
    exact ⟨field, mem_filter.mpr ⟨inCatalog, by simpa using labelled⟩, rfl, rfl⟩

theorem loadVector_cases (fields : List VectorField) (pid : Nat) (found : Option (List (BitVec 64))) :
    let loaded := fields.foldl (fun found field => (vertex.vectors.lookup (field.labelId, pid)).or found) found
    (loaded = found ∧ ∀ field ∈ fields, vertex.vectors.lookup (field.labelId, pid) = none) ∨
      ∃ field ∈ fields, ∃ vector, vertex.vectors.lookup (field.labelId, pid) = some vector ∧ loaded = some vector := by
  induction fields generalizing found with
  | nil => exact .inl ⟨rfl, by simp⟩
  | cons field rest ih =>
    rcases ih ((vertex.vectors.lookup (field.labelId, pid)).or found) with ⟨same, absent⟩ | ⟨other, mem, rest⟩
    · cases here : vertex.vectors.lookup (field.labelId, pid) with
      | none =>
        exact .inl ⟨by simpa [here] using same, forall_mem_cons.mpr ⟨here, absent⟩⟩
      | some vector =>
        exact .inr ⟨field, mem_cons_self, vector, here, by simpa [here] using same⟩
    · exact .inr ⟨other, mem_cons_of_mem _ mem, rest⟩

theorem lookup_of_loadVector {vector : List (BitVec 64)} (loaded : vertex.loadVector info pid = some vector) :
    ∃ lid, HasField info vertex.labels lid pid ∧ vertex.vectors.lookup (lid, pid) = some vector := by
  rcases loadVector_cases (vertex.vectorFields info pid) pid none with ⟨missing, -⟩ | ⟨field, mem, other, found, same⟩
  · cases loaded.symm.trans missing
  · cases loaded.symm.trans same
    exact ⟨field.labelId, hasField_of_mem mem, found⟩

end Fields

section Required

variable {info : MetaInfo}

@[simp] theorem labelsChanged_self (labels : List Nat) : labelsChanged labels labels = false := by
  simp [labelsChanged]

@[simp] theorem get_loadSerialized (vertex : Vertex) (pids : List Nat) (pid : Nat) :
    (vertex.loadSerialized pids).get pid = if pid ∈ pids then vertex.scalars.get pid else none := by
  rw [loadSerialized, get_filter_key]
  simp

@[simp] theorem get_scalarValues (vertex : Vertex) (values : Table Nat SizedValue) (pid : Nat) :
    (vertex.scalarValues info values).get pid =
      if (vertex.vectorFields info pid).isEmpty then values.get pid else none := by
  rw [scalarValues, get_filter_key]

theorem mem_collect_touched {labels : List Nat} {pid : Nat}
    (required : collectVertexIndexPropertyIds info labels labels [pid] ≠ []) :
    pid ∈ collectVertexIndexPropertyIds info labels labels [pid] := by
  obtain ⟨other, mem⟩ := exists_mem_of_ne_nil _ required
  simp only [collectVertexIndexPropertyIds, isEmpty_cons, Bool.and_false, Bool.false_eq_true,
    if_false, mem_append, mem_flatMap, List.mem_map, mem_filter, Bool.and_eq_true] at mem ⊢
  rcases mem with (⟨index, picked, -⟩ | ⟨index, picked, -⟩) | ⟨index, picked, -⟩
  · have touched : pid ∈ index.propertyIds := by simpa using picked.2.2
    exact .inl (.inl ⟨index, picked, touched⟩)
  · exact .inl (.inr ⟨index, picked, by simpa using picked.2.2⟩)
  · exact .inr ⟨index, picked, by simpa using picked.2.2⟩

end Required

section Specs

variable {rounding : Rounding} {info : MetaInfo} {vertex next : Vertex} {change : Option IndexChange}

def Rounding.Parses (rounding : Rounding) (value : Value) (vector : List (BitVec 64)) : Prop :=
  ∃ dimensions, tryParseVectorValue rounding value dimensions = some vector

variable {vector : List (BitVec 64)} {fields : List VectorField} {records : List ((Nat × Nat) × List (BitVec 64))}
  {values : Table Nat SizedValue} {field : VectorField} {parsed : List (Nat × List (BitVec 64))}

theorem parses_of_parseVectorValue {value : Value} {dimensions : Nat}
    (done : parseVectorValue rounding value dimensions = .ok vector) : rounding.Parses value vector := by
  unfold parseVectorValue at done
  split at done
  next parsed =>
    cases done
    exact ⟨dimensions, parsed⟩
  · cases done

theorem parses_of_parseFields {value : Value} (nonempty : fields ≠ [])
    (done : Vertex.parseFields rounding value fields = .ok vector) :
    rounding.Parses value vector := by
  induction fields with
  | nil => exact absurd rfl nonempty
  | cons field rest ih =>
    cases rest with
    | nil => exact parses_of_parseVectorValue done
    | cons second more =>
      rw [parseFields, bind_eq_ok] at done
      · obtain ⟨_, -, done⟩ := done
        exact ih (cons_ne_nil _ _) done
      · simp

theorem mem_vectorRecords {entry : Nat × SizedValue}
    (done : vertex.vectorRecords rounding info entry = .ok records) :
    (∀ lid pid vector, ((lid, pid), vector) ∈ records → HasField info vertex.labels lid pid ∧ pid = entry.1 ∧
      rounding.Parses entry.2.val vector) ∧
    ∀ lid, HasField info vertex.labels lid entry.1 → ∃ vector, ((lid, entry.1), vector) ∈ records := by
  rw [vectorRecords, bind_eq_ok] at done
  obtain ⟨vector, parsed, done⟩ := done
  cases done
  constructor
  · intro lid pid other mem
    obtain ⟨field, inFields, same⟩ := List.mem_map.mp mem
    cases same
    exact ⟨hasField_of_mem inFields, rfl, parses_of_parseFields (ne_nil_of_mem inFields) parsed⟩
  · intro lid has
    obtain ⟨field, inFields, rfl⟩ := has.exists_mem
    exact ⟨vector, List.mem_map.mpr ⟨field, inFields, rfl⟩⟩

theorem mem_parseVectors (done : vertex.parseVectors rounding info values = .ok records) :
    (∀ lid pid vector, ((lid, pid), vector) ∈ records → HasField info vertex.labels lid pid ∧
      ∃ value, values.get pid = some value ∧ rounding.Parses value.val vector) ∧
    ∀ lid pid, HasField info vertex.labels lid pid → values.get pid ≠ none →
      ∃ vector, ((lid, pid), vector) ∈ records := by
  rw [parseVectors, bind_eq_ok] at done
  obtain ⟨groups, read, done⟩ := done
  cases done
  have each := forall₂_of_mapM read
  constructor
  · intro lid pid vector mem
    obtain ⟨group, inGroups, mem⟩ := mem_flatten.mp mem
    obtain ⟨entry, inValues, parsed⟩ := exists_related_of_mem each inGroups
    obtain ⟨has, rfl, parses⟩ := (mem_vectorRecords parsed).1 lid pid vector mem
    exact ⟨has, entry.2, (get_eq_some_iff _).mpr inValues, parses⟩
  · intro lid pid has given
    obtain ⟨value, given⟩ := ne_none_iff_exists'.mp given
    obtain ⟨group, inGroups, parsed⟩ := exists_related_of_mem each.flip ((get_eq_some_iff _).mp given)
    obtain ⟨vector, mem⟩ := (mem_vectorRecords parsed).2 lid has
    exact ⟨vector, mem_flatten.mpr ⟨group, inGroups, mem⟩⟩

theorem writeProperties_spec (done : vertex.writeProperties rounding info values = .ok next) :
    next.labels = vertex.labels ∧
    (∀ pid, next.scalars.get pid = if (vertex.vectorFields info pid).isEmpty then
      (values.get pid).or (vertex.scalars.get pid) else vertex.scalars.get pid) ∧
    ∀ lid pid vector, next.vectors.lookup (lid, pid) = some vector →
      (HasField info vertex.labels lid pid ∧ ∃ value, values.get pid = some value ∧ rounding.Parses value.val vector) ∨
      (HasField info vertex.labels lid pid → values.get pid = none) ∧ vertex.vectors.lookup (lid, pid) = some vector := by
  rw [writeProperties, bind_eq_ok] at done
  obtain ⟨records, parsed, done⟩ := done
  obtain ⟨written, complete⟩ := mem_parseVectors parsed
  cases done
  refine ⟨by simp, fun pid => ?_, fun lid pid vector found => ?_⟩
  · rw [(putVectors_keeps ..).2, get_overlay, get_scalarValues]
    split <;> rfl
  · rcases of_lookup_putVectors found with new | ⟨untouched, old⟩
    · exact .inl (written lid pid vector new)
    refine .inr ⟨fun has => ?_, old⟩
    by_contra given
    obtain ⟨other, mem⟩ := complete lid pid has given
    exact untouched _ mem rfl

/-- A vector for a field was stored, or is the scalar record rounded. -/
def Vertex.Holds (rounding : Rounding) (info : MetaInfo) (vertex : Vertex) (pid : Nat) (vector : List (BitVec 64)) : Prop :=
  vertex.loadVector info pid = some vector ∨
    ∃ value, vertex.scalars.get pid = some value ∧ rounding.Parses value.val vector

section

variable (known : ∀ pid vector, parsed.lookup pid = some vector → vertex.Holds rounding info pid vector)
include known

theorem holds_of_fieldVector
    (done : vertex.fieldVector rounding info field parsed = .ok (some vector)) :
    vertex.Holds rounding info field.propertyId vector := by
  unfold fieldVector at done
  split at done
  next found =>
    cases done
    rcases or_eq_some_iff.mp found with stored | ⟨-, before⟩
    · exact .inl stored
    · exact known _ _ before
  · split at done
    next value scalar =>
      obtain ⟨_, parsedNow, same⟩ := map_eq_ok.mp done
      cases same
      exact .inr ⟨value, scalar, parses_of_parseVectorValue parsedNow⟩
    · cases done

theorem copyToFields_cons {rest : List VectorField}
    (done : vertex.copyToFields rounding info (field :: rest) parsed = .ok records) :
    ∃ found later others, vertex.fieldVector rounding info field parsed = .ok found ∧
      (∀ pid vector, later.lookup pid = some vector → vertex.Holds rounding info pid vector) ∧
      vertex.copyToFields rounding info rest later = .ok others ∧
      ∀ record ∈ records, (∃ vector, found = some vector ∧ record = ((field.labelId, field.propertyId), vector)) ∨
        record ∈ others := by
  rw [copyToFields, bind_eq_ok] at done
  obtain ⟨found, read, done⟩ := done
  cases found with
  | none => exact ⟨none, parsed, records, read, known, done, fun _ => .inr⟩
  | some new =>
    have holds := holds_of_fieldVector known read
    rw [check_bind_eq_ok] at done
    obtain ⟨-, done⟩ := done
    rw [bind_eq_ok] at done
    obtain ⟨others, later, done⟩ := done
    cases done
    refine ⟨some new, _, others, read, ?_, later, by simp⟩
    intro pid vector found
    rw [lookup_cons] at found
    split at found
    next same =>
      cases found
      rw [beq_iff_eq.mp same]
      exact holds
    · exact known pid vector found

section

variable (done : vertex.copyToFields rounding info fields parsed = .ok records)
include done

theorem mem_copyToFields {lid pid : Nat} (mem : ((lid, pid), vector) ∈ records) :
    (∃ field ∈ fields, field.labelId = lid ∧ field.propertyId = pid) ∧ vertex.Holds rounding info pid vector := by
  induction fields generalizing parsed records with
  | nil =>
    cases done
    cases mem
  | cons field rest ih =>
    obtain ⟨found, later, others, read, knownLater, copied, split⟩ := copyToFields_cons known done
    rcases split _ mem with ⟨new, rfl, same⟩ | inOthers
    · cases same
      exact ⟨⟨field, mem_cons_self, rfl, rfl⟩, holds_of_fieldVector known read⟩
    · obtain ⟨⟨other, inRest, named⟩, holds⟩ := ih knownLater copied inOthers
      exact ⟨⟨other, mem_cons_of_mem _ inRest, named⟩, holds⟩

theorem parses_of_copyToFields (mem : field ∈ fields)
    {value : SizedValue} (scalar : vertex.scalars.get field.propertyId = some value)
    (missing : vertex.loadVector info field.propertyId = none) :
    ∃ vector, rounding.Parses value.val vector := by
  induction fields generalizing parsed records with
  | nil => cases mem
  | cons head rest ih =>
    obtain ⟨found, later, others, read, knownLater, copied, -⟩ := copyToFields_cons known done
    rcases mem_cons.mp mem with rfl | inRest
    · cases found with
      | none =>
        -- A field is left out only if there is no scalar record.
        unfold fieldVector at read
        split at read
        · cases read
        rw [scalar] at read
        obtain ⟨_, -, absurdity⟩ := map_eq_ok.mp read
        cases absurdity
      | some vector =>
        rcases holds_of_fieldVector known read with loaded | ⟨other, same, parses⟩
        · cases missing.symm.trans loaded
        · cases scalar.symm.trans same
          exact ⟨vector, parses⟩
    · exact ih knownLater copied inRest

end

end

theorem writeProperties_of_setProperties
    (done : vertex.setProperties rounding info values = .ok (next, change)) :
    vertex.writeProperties rounding info values = .ok next := by
  unfold setProperties at done
  split at done
  next empty =>
    obtain ⟨entries, sorted⟩ := values
    obtain rfl : entries = [] := isEmpty_iff.mp empty
    cases done
    rfl
  · rw [bind_eq_ok] at done
    obtain ⟨written, wrote, done⟩ := done
    cases done
    exact wrote

theorem addLabels_spec {labels : List Nat} (done : vertex.addLabels rounding info labels = .ok (next, change)) :
    (∃ added, next.labels = vertex.labels ++ added) ∧ next.scalars = vertex.scalars ∧
    ∀ lid pid vector, next.vectors.lookup (lid, pid) = some vector →
      vertex.vectors.lookup (lid, pid) = some vector ∨ HasField info next.labels lid pid ∧
        Vertex.Holds rounding info { vertex with labels := next.labels } pid vector := by
  unfold addLabels at done
  split at done
  · cases done
    exact ⟨⟨[], by simp⟩, rfl, fun lid pid vector found => .inl found⟩
  · simp only [bind_eq_ok] at done
    obtain ⟨records, copied, done⟩ := done
    cases done
    rw [(putVectors_keeps ..).1, (putVectors_keeps ..).2]
    refine ⟨⟨_, rfl⟩, rfl, fun lid pid vector found => ?_⟩
    rcases of_lookup_putVectors found with new | ⟨-, old⟩
    · obtain ⟨isField, holds⟩ := mem_copyToFields (by simp) copied new
      exact .inr ⟨mem_labelFields.mp isField, holds⟩
    · exact .inl old

theorem deleteLabels_spec (info : MetaInfo) (vertex : Vertex) (labels : List Nat) :
    let next := (vertex.deleteLabels info labels).1
    next.labels = vertex.labels.filter (fun lid => !labels.contains lid) ∧ next.scalars = vertex.scalars ∧
    ∀ lid pid vector, next.vectors.lookup (lid, pid) = some vector →
      vertex.vectors.lookup (lid, pid) = some vector ∧
        ¬ HasField info (vertex.labels.filter labels.contains) lid pid := by
  unfold deleteLabels
  simp only
  split
  next nothing =>
    have kept : vertex.labels.filter (fun lid => !labels.contains lid) = vertex.labels := by
      rw [filter_eq_self]
      intro lid labelled
      have := filter_eq_nil_iff.mp (isEmpty_iff.mp nothing) lid labelled
      simpa using this
    refine ⟨kept.symm, rfl, fun lid pid vector found => ⟨found, fun has => ?_⟩⟩
    rw [isEmpty_iff.mp nothing] at has
    cases has.1
  · refine ⟨rfl, rfl, fun lid pid vector found => ?_⟩
    rw [lookup_deleteVectors] at found
    split at found
    · cases found
    next kept =>
      exact ⟨found, fun has => kept (by simpa using mem_labelFields.mpr has)⟩

theorem removeProperty_spec (info : MetaInfo) (vertex : Vertex) (pid : Nat) :
    let next := (vertex.removeProperty info pid).1
    next.labels = vertex.labels ∧
    (∀ other, next.scalars.get other = if other = pid then none else vertex.scalars.get other) ∧
    ∀ lid other vector, next.vectors.lookup (lid, other) = some vector →
      vertex.vectors.lookup (lid, other) = some vector ∧ (HasField info vertex.labels lid other → other ≠ pid) := by
  have unchanged : vertex.scalars.get pid = none → ∀ other, vertex.scalars.get other =
      if other = pid then none else vertex.scalars.get other := by
    intro missing other
    split
    next same =>
      rw [same, missing]
    · rfl
  unfold removeProperty
  simp only
  split
  · split
    next absent =>
      obtain ⟨noScalar, noVector⟩ := absent
      refine ⟨rfl, unchanged ?_, fun lid other vector found => ⟨found, ?_⟩⟩
      · have missing : (vertex.loadSerialized [pid]).get pid = none := by
          rw [Table.get, isEmpty_iff.mp noScalar, Table.find]
        simpa using missing
      · rintro has rfl
        obtain ⟨field, mem, rfl⟩ := has.exists_mem
        rcases loadVector_cases (vertex.vectorFields info other) other none with ⟨-, absent⟩ | ⟨_, _, _, _, same⟩
        · cases found.symm.trans (absent field mem)
        · cases noVector.symm.trans same
    · refine ⟨rfl, fun other => Table.get_erase .., fun lid other vector found => ?_⟩
      rw [lookup_deleteVectors] at found
      split at found
      · cases found
      rename_i kept
      refine ⟨found, ?_⟩
      rintro has rfl
      obtain ⟨field, mem, rfl⟩ := has.exists_mem
      exact kept (List.mem_map.mpr ⟨field, mem, rfl⟩)
  next scalarOnly =>
    have noField : ∀ lid other, HasField info vertex.labels lid other → other ≠ pid := by
      rintro lid other has rfl
      exact isEmpty_vectorFields.mp (by simpa using scalarOnly) lid has
    split
    · split
      · exact ⟨rfl, fun other => Table.get_erase .., fun lid other vector found => ⟨found, noField lid other⟩⟩
      rename_i missing
      refine ⟨rfl, unchanged ?_, fun lid other vector found => ⟨found, noField lid other⟩⟩
      simpa [Table.contains] using missing
    next required =>
      split
      · exact ⟨rfl, fun other => Table.get_erase .., fun lid other vector found => ⟨found, noField lid other⟩⟩
      rename_i missing
      refine ⟨rfl, unchanged ?_, fun lid other vector found => ⟨found, noField lid other⟩⟩
      have mem := mem_collect_touched (by simpa using required)
      simpa [Table.contains, mem] using missing

theorem removeAllProperty_spec (info : MetaInfo) (vertex : Vertex) :
    let next := (vertex.removeAllProperty info).1
    next.labels = vertex.labels ∧ next.scalars = .empty ∧
    ∀ lid pid vector, next.vectors.lookup (lid, pid) = some vector →
      vertex.vectors.lookup (lid, pid) = some vector ∧ ¬ HasField info vertex.labels lid pid := by
  refine ⟨rfl, rfl, fun lid pid vector found => ?_⟩
  rw [removeAllProperty, lookup_deleteVectors] at found
  split at found
  · cases found
  rename_i kept
  refine ⟨found, fun has => kept ?_⟩
  obtain ⟨field, mem, rfl, rfl⟩ := mem_labelFields.mpr has
  refine List.mem_map.mpr ⟨field, mem_filter.mpr ⟨mem, ?_⟩, rfl⟩
  rw [found]
  rfl

end Specs

end RocksGraph.Storage
