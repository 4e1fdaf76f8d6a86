import RocksGraph.Catalog.MetaInfo
import RocksGraph.Foundation.Table
import RocksGraph.Storage.PropertyIndexKey

/-! Lookups of vertices by label and properties (`transaction.cc`,
`vertex_iterator.cc`, `index.cc`).

`NewVertexIterator` reads a ready unique index where there is one and scans the
label otherwise. The index holds the scalar records of the vertices under the
representation of their values; the scan compares what `GetProperty` returns by
value equality. -/

set_option autoImplicit false

namespace RocksGraph.Storage

open Foundation Catalog List Table

/-- A value as a process holds it: its lengths are 64-bit sizes. -/
abbrev SizedValue := { value : Value // value.sized }

/-- The records of one vertex: its labels, its scalar properties, and its vector
properties by label and property, with their components as doubles. -/
structure Vertex where
  labels : List Nat
  scalars : Table Nat SizedValue
  vectors : List ((Nat × Nat) × List (BitVec 64))

/-- The state a transaction reads: names and ids of labels and properties, the
catalog, the vertices, and the column family of the property indexes. -/
structure Graph where
  lids : List (String × Nat)
  pids : List (String × Nat)
  info : MetaInfo
  vertices : Table Nat Vertex
  indexEntries : List (Bytes × Nat)

def Graph.getLid (graph : Graph) (label : String) : Option Nat := graph.lids.lookup label

def Graph.getPid (graph : Graph) (property : String) : Option Nat := graph.pids.lookup property

/-- `GetVertexVectorFields` for the labels of a vertex and one property. -/
def Vertex.vectorFields (vertex : Vertex) (info : MetaInfo) (pid : Nat) : List VectorField :=
  vertex.labels.filterMap fun lid => info.getVertexVectorField lid pid

/-- `LoadVertexVectorProperties` for one property: the last field with a record counts. -/
def Vertex.loadVector (vertex : Vertex) (info : MetaInfo) (pid : Nat) : Option (List (BitVec 64)) :=
  (vertex.vectorFields info pid).foldl
    (fun found field => (vertex.vectors.lookup (field.labelId, pid)).or found) none

def Vertex.getProperty (vertex : Vertex) (info : MetaInfo) (pid : Nat) : Value :=
  if (vertex.vectorFields info pid).isEmpty then
    match vertex.scalars.get pid with
    | some stored => stored.val
    | none => .null
  else
    match vertex.loadVector info pid with
    | some vector => .list (vector.map .double)
    | none => .null

/-! ## Iterators

An iterator is the list of the vertices it yields, or the error it throws. -/

namespace Graph

variable (graph : Graph)

def vertexScan : List Nat := graph.vertices.entries.map Prod.fst

def labelScan (lid : Nat) : List Nat :=
  (graph.vertices.entries.filter fun entry => entry.2.labels.contains lid).map Prod.fst

def propertiesMatch (properties : Table Nat SizedValue) (vid : Nat) : Except Error Bool :=
  match graph.vertices.get vid with
  | some vertex =>
    .ok (properties.entries.all fun entry => (vertex.getProperty graph.info entry.1).eq entry.2.val)
  | none => .error ⟨.storageEngineError, "NotFound: "⟩

def propertyFilter (graph : Graph) (properties : Table Nat SizedValue) : List Nat → Except Error (List Nat)
  | [] => .ok []
  | vid :: rest => do
    let keep ← graph.propertiesMatch properties vid
    let others ← graph.propertyFilter properties rest
    return if keep then vid :: others else others

def filterUnlessEmpty (properties : Table Nat SizedValue) (source : List Nat) :
    Except Error (List Nat) :=
  if properties.entries.isEmpty then .ok source else graph.propertyFilter properties source

def uniqueIndexIterator (index : PropertyIndex) (values : List Value) : Except Error (List Nat) := do
  let key ← indexKey (BitVec.ofNat 32 index.indexId) values
  return (graph.indexEntries.lookup key).toList

/-- A ready unique index of the label whose properties are all given takes the
place of one with fewer properties. -/
def betterIndex (lid : Nat) (properties : Table Nat SizedValue) (best : Option PropertyIndex)
    (index : PropertyIndex) : Option PropertyIndex :=
  if index.state = .ready ∧ index.isUnique ∧ index.ownerId = lid ∧
      ∀ pid ∈ index.propertyIds, properties.contains pid then
    match best with
    | none => some index
    | some other => if other.propertyIds.length < index.propertyIds.length then some index else some other
  else best

def bestUniqueIndex (lid : Nat) (properties : Table Nat SizedValue) : Option PropertyIndex :=
  graph.info.vertexPropertyIndexes.foldl (betterIndex lid properties) none

/-- The given properties by id, or nothing when a name has no id; the first of
two values for one id stays. -/
def resolve (graph : Graph) : List (String × SizedValue) → Table Nat SizedValue → Option (Table Nat SizedValue)
  | [], found => some found
  | (name, value) :: rest, found =>
    match graph.getPid name with
    | none => none
    | some pid => graph.resolve rest (if found.contains pid then found else found.put pid value)

def takeIndexed : List Nat → Table Nat SizedValue → Option (List Value × Table Nat SizedValue)
  | [], properties => some ([], properties)
  | pid :: rest, properties => do
    let value ← properties.get pid
    let (values, left) ← takeIndexed rest (properties.erase pid)
    return (value.val :: values, left)

/-- `Transaction::NewVertexIterator`. A property that is missing from the map is
`std::out_of_range`. -/
def newVertexIterator (label : Option String) (props : Option (List (String × SizedValue))) :
    Except Error (List Nat) :=
  match label, props with
  | none, none => .ok graph.vertexScan
  | some label, none =>
    match graph.getLid label with
    | none => .ok []
    | some lid => .ok (graph.labelScan lid)
  | none, some props =>
    match graph.resolve props .empty with
    | none => .ok []
    | some properties => graph.filterUnlessEmpty properties graph.vertexScan
  | some label, some props =>
    match graph.getLid label with
    | none => .ok []
    | some lid =>
      match graph.resolve props .empty with
      | none => .ok []
      | some properties =>
        match graph.bestUniqueIndex lid properties with
        | none => graph.filterUnlessEmpty properties (graph.labelScan lid)
        | some index =>
          match takeIndexed index.propertyIds properties with
          | none => .error ⟨.outOfRange, "unordered_map::at"⟩
          | some (values, left) => do
            let found ← graph.uniqueIndexIterator index values
            graph.filterUnlessEmpty left found

def withoutIndexes : Graph :=
  { graph with info := { graph.info with vertexPropertyIndexes := [] } }

end Graph

def Vertex.indexedValues (vertex : Vertex) (index : PropertyIndex) : Option (List SizedValue) :=
  index.propertyIds.mapM vertex.scalars.get

/-- The entries of a ready index: a key leads to the vertex with the label and
these values. -/
structure Graph.Serves (graph : Graph) (index : PropertyIndex) : Prop where
  distinct : index.propertyIds.Nodup
  entry : ∀ {values : List SizedValue} {key : Bytes}, values.length = index.propertyIds.length →
    indexKey (BitVec.ofNat 32 index.indexId) (values.map Subtype.val) = .ok key →
    ∀ vid, graph.indexEntries.lookup key = some vid ↔ ∃ vertex, graph.vertices.get vid = some vertex ∧
      index.ownerId ∈ vertex.labels ∧ vertex.indexedValues index = some values

/-- `ApplyBuildUpdate` of a unique index for an added vertex. -/
def addEntry (index : PropertyIndex) (entries : List (Bytes × Nat)) (vid : Nat) (values : List Value) :
    Except Error (List (Bytes × Nat)) := do
  let key ← indexKey (BitVec.ofNat 32 index.indexId) values
  match entries.lookup key with
  | some other => if other = vid then .ok entries else .error ⟨.indexValueAlreadyExists, "Index value already exists."⟩
  | none => .ok ((key, vid) :: entries)

/-- `VertexPropertyIndex::Load` over the vertices of the snapshot. -/
def loadEntries (index : PropertyIndex) : List (Nat × Vertex) → List (Bytes × Nat) → Except Error (List (Bytes × Nat))
  | [], entries => .ok entries
  | (vid, vertex) :: rest, entries =>
    if index.ownerId ∈ vertex.labels then
      match vertex.indexedValues index with
      | some values => do
        let added ← addEntry index entries vid (values.map Subtype.val)
        loadEntries index rest added
      | none => loadEntries index rest entries
    else loadEntries index rest entries

def Graph.load (graph : Graph) (index : PropertyIndex) : Except Error Graph := do
  let entries ← loadEntries index graph.vertices.entries graph.indexEntries
  return { graph with indexEntries := entries }

variable {vid : Nat} {vertex : Vertex}

section Load

variable {index : PropertyIndex}

def Covers (index : PropertyIndex) (entries : List (Bytes × Nat)) (seen : List (Nat × Vertex)) : Prop :=
  ∀ {values : List SizedValue} {key : Bytes}, values.length = index.propertyIds.length →
    indexKey (BitVec.ofNat 32 index.indexId) (values.map Subtype.val) = .ok key →
    ∀ vid, entries.lookup key = some vid ↔ ∃ vertex, (vid, vertex) ∈ seen ∧
      index.ownerId ∈ vertex.labels ∧ vertex.indexedValues index = some values

theorem sized_of_map (values : List SizedValue) : ∀ value ∈ values.map Subtype.val, value.sized := by
  intro value mem
  obtain ⟨stored, -, rfl⟩ := mem_map.mp mem
  exact stored.property

variable {entries : List (Bytes × Nat)} {seen : List (Nat × Vertex)}

theorem Covers.skip (covers : Covers index entries seen)
    (absent : ∀ values, ¬(index.ownerId ∈ vertex.labels ∧
      vertex.indexedValues index = some values)) : Covers index entries (seen ++ [(vid, vertex)]) := by
  intro values key length encoded other
  rw [covers length encoded]
  refine exists_congr fun found => and_congr_left fun indexed => ?_
  simp only [mem_append, mem_singleton, iff_self_or]
  rintro ⟨-, rfl⟩
  exact absurd indexed (absent values)

theorem Covers.add {next : List (Bytes × Nat)} (covers : Covers index entries seen)
    {stored : List SizedValue} (labelled : index.ownerId ∈ vertex.labels)
    (known : vertex.indexedValues index = some stored)
    (added : addEntry index entries vid (stored.map Subtype.val) = .ok next) :
    Covers index next (seen ++ [(vid, vertex)]) := by
  rw [addEntry, bind_eq_ok] at added
  obtain ⟨storedKey, storedEncoded, added⟩ := added
  intro values key length encoded other
  have old := covers length encoded other
  simp only [mem_append, mem_singleton, Prod.mk.injEq]
  by_cases same : key = storedKey
  · subst same
    have storedLength := congrArg List.length (mapM_eq_some.mp known)
    rw [length_map, length_map, ← length] at storedLength
    obtain rfl := map_injective_iff.mpr Subtype.val_injective (indexKey_inj (by rw [length_map, length_map, storedLength])
      (sized_of_map values) (sized_of_map stored) encoded storedEncoded)
    -- The key was free, or it led to this vertex already.
    have leads : next.lookup key = some vid ∧ ∀ owner, entries.lookup key = some owner → owner = vid := by
      split at added
      next owner found =>
        split at added
        next same =>
          subst same
          obtain rfl := Except.ok.inj added
          exact ⟨found, fun other known => Option.some.inj (known.symm.trans found)⟩
        · cases added
      next free =>
        obtain rfl := Except.ok.inj added
        exact ⟨lookup_cons_self, fun owner known => by cases free.symm.trans known⟩
    rw [leads.1, Option.some.injEq]
    constructor
    · rintro rfl
      exact ⟨vertex, .inr ⟨rfl, rfl⟩, labelled, known⟩
    · rintro ⟨found, earlier | ⟨rfl, -⟩, indexed⟩
      · exact (leads.2 other (old.mpr ⟨found, earlier, indexed⟩)).symm
      · rfl
  · have unchanged : next.lookup key = entries.lookup key := by
      split at added
      · split at added
        · rw [Except.ok.inj added]
        · cases added
      · rw [← Except.ok.inj added, lookup_cons, beq_false_of_ne same]
    rw [unchanged, old]
    refine exists_congr fun found => and_congr_left fun indexed => (iff_self_or.mpr ?_)
    rintro ⟨-, rfl⟩
    obtain rfl := Option.some.inj (known.symm.trans indexed.2)
    exact absurd (Except.ok.inj (encoded.symm.trans storedEncoded)) same

theorem covers_loadEntries {rest : List (Nat × Vertex)} : ∀ {seen : List (Nat × Vertex)}
    {entries next : List (Bytes × Nat)}, Covers index entries seen → loadEntries index rest entries = .ok next →
      Covers index next (seen ++ rest) := by
  induction rest with
  | nil =>
    intro seen entries next covers loaded
    obtain rfl := Except.ok.inj loaded
    rwa [append_nil]
  | cons entry rest ih =>
    intro seen entries next covers loaded
    rw [loadEntries] at loaded
    rw [← singleton_append, ← append_assoc]
    split at loaded
    next labelled =>
      split at loaded
      next values known =>
        rw [bind_eq_ok] at loaded
        obtain ⟨added, first, loaded⟩ := loaded
        exact ih (covers.add labelled known first) loaded
      next unknown =>
        exact ih (covers.skip fun values indexed => by cases unknown.symm.trans indexed.2) loaded
    next unlabelled =>
      exact ih (covers.skip fun values indexed => unlabelled indexed.1) loaded

theorem Graph.serves_of_load {graph next : Graph} (distinct : index.propertyIds.Nodup)
    (free : ∀ {values : List SizedValue} {key : Bytes},
      indexKey (BitVec.ofNat 32 index.indexId) (values.map Subtype.val) = .ok key →
        graph.indexEntries.lookup key = none)
    (loaded : graph.load index = .ok next) : next.Serves index := by
  rw [Graph.load, bind_eq_ok] at loaded
  obtain ⟨entries, done, last⟩ := loaded
  obtain rfl := pure_eq_ok.mp last
  have start : Covers index graph.indexEntries [] := by
    intro values key _ encoded vid
    simp [free encoded]
  refine ⟨distinct, fun length encoded vid => ?_⟩
  rw [covers_loadEntries start done length encoded]
  exact exists_congr fun vertex => and_congr_left fun _ => (get_eq_some_iff _).symm

end Load

/-! ## Lookups agree -/

def Graph.matching (graph : Graph) (properties : Table Nat SizedValue) (vid : Nat) : Bool :=
  match graph.vertices.get vid with
  | some vertex => properties.entries.all fun entry => (vertex.getProperty graph.info entry.1).eq entry.2.val
  | none => false

section Filter

variable {graph : Graph} {properties : Table Nat SizedValue}

namespace Graph

theorem matching_iff (found : graph.vertices.get vid = some vertex) :
    graph.matching properties vid ↔ ∀ pid expected, properties.get pid = some expected →
      (vertex.getProperty graph.info pid).eq expected.val := by
  simp only [matching, found, all_eq_true, Prod.forall, get_eq_some_iff]

theorem propertyFilter_eq {source : List Nat} (present : ∀ vid ∈ source, graph.vertices.contains vid) :
    graph.propertyFilter properties source = .ok (source.filter (graph.matching properties)) := by
  induction source with
  | nil => rfl
  | cons vid rest ih =>
    rw [forall_mem_cons] at present
    obtain ⟨vertex, found⟩ := (contains_iff _ _).mp present.1
    have first : graph.propertiesMatch properties vid = .ok (graph.matching properties vid) := by
      rw [propertiesMatch, matching, found]
    rw [propertyFilter, first, ih present.2, filter_cons]
    rfl

theorem filterUnlessEmpty_eq {source : List Nat} (present : ∀ vid ∈ source, graph.vertices.contains vid) :
    graph.filterUnlessEmpty properties source = .ok (source.filter (graph.matching properties)) := by
  rw [filterUnlessEmpty]
  split
  next none =>
    have all : ∀ vid ∈ source, graph.matching properties vid := by
      intro vid mem
      obtain ⟨vertex, found⟩ := (contains_iff _ _).mp (present vid mem)
      rw [matching, found, isEmpty_iff.mp none]
      rfl
    rw [filter_eq_self.mpr all]
  · exact propertyFilter_eq present

theorem mem_labelScan {lid : Nat} :
    vid ∈ graph.labelScan lid ↔ ∃ vertex, graph.vertices.get vid = some vertex ∧ lid ∈ vertex.labels := by
  simp only [labelScan, mem_map, mem_filter, contains_iff_mem, Prod.exists, exists_and_right,
    exists_eq_right, get_eq_some_iff]

theorem nodup_labelScan (graph : Graph) (lid : Nat) : (graph.labelScan lid).Nodup := by
  have sorted := graph.vertices.sorted.filter fun entry => entry.2.labels.contains lid
  exact List.Pairwise.map Prod.fst (fun _ _ less => ne_of_lt less) sorted

theorem contains_of_mem_labelScan {lid : Nat} : ∀ vid ∈ graph.labelScan lid, graph.vertices.contains vid := by
  intro vid mem
  obtain ⟨vertex, found, -⟩ := mem_labelScan.mp mem
  exact (contains_iff _ _).mpr ⟨vertex, found⟩

end Graph

end Filter

theorem Graph.takeIndexed_eq_some {pids : List Nat} : ∀ {properties : Table Nat SizedValue}, pids.Nodup →
    (∀ pid ∈ pids, properties.contains pid) → ∃ (expected : List SizedValue) (left : Table Nat SizedValue),
      Graph.takeIndexed pids properties = some (expected.map Subtype.val, left) ∧
      pids.map properties.get = expected.map some ∧
      ∀ pid, left.get pid = if pid ∈ pids then none else properties.get pid := by
  induction pids with
  | nil =>
    intro properties _ _
    exact ⟨[], properties, rfl, rfl, fun _ => rfl⟩
  | cons pid rest ih =>
    intro properties distinct given
    rw [nodup_cons] at distinct
    rw [forall_mem_cons] at given
    obtain ⟨value, found⟩ := (Table.contains_iff _ _).mp given.1
    have others : ∀ other ∈ rest, (properties.erase pid).get other = properties.get other := by
      intro other mem
      rw [Table.get_erase, if_neg (fun same : other = pid => distinct.1 (same ▸ mem))]
    obtain ⟨expected, left, taken, values, remain⟩ := @ih (properties.erase pid) distinct.2 (by
      intro other mem
      rw [Table.contains, others other mem]
      exact given.2 other mem)
    refine ⟨value :: expected, left, ?_, ?_, ?_⟩
    · rw [Graph.takeIndexed, found]
      simp [taken]
    · rw [map_cons, map_cons, found, ← values, map_congr_left others]
    · intro other
      rw [remain]
      by_cases same : other = pid <;> simp [same]

/-- What the lookup asks the records of a vertex is what the scan asks `GetProperty`, for the vertices with the label
that have the other properties. -/
structure Graph.Agrees (graph : Graph) (index : PropertyIndex) (properties : Table Nat SizedValue) : Prop where
  /-- The expected values can be part of a key. -/
  encodable : ∀ pid ∈ index.propertyIds, ∀ value, properties.get pid = some value →
    ∃ bytes, propertyIndexValue value.val = .ok bytes
  same : ∀ {vid vertex}, graph.vertices.get vid = some vertex → index.ownerId ∈ vertex.labels →
    (∀ pid ∉ index.propertyIds, ∀ value, properties.get pid = some value →
      (vertex.getProperty graph.info pid).eq value.val) →
    ((∀ pid ∈ index.propertyIds, vertex.scalars.get pid = properties.get pid) ↔
      ∀ pid ∈ index.propertyIds, ∀ value, properties.get pid = some value →
        (vertex.getProperty graph.info pid).eq value.val)

/-- The value a property has to have, and how the vertices with the label of the
index store the property. -/
structure Graph.Comparable (graph : Graph) (index : PropertyIndex) (pid : Nat) (expected : SizedValue) : Prop where
  /-- The expected value can be part of a key. -/
  encodable : ∃ bytes, propertyIndexValue expected.val = .ok bytes
  /-- No label of a vertex keeps the property as a vector. -/
  scalar : ∀ {vid vertex}, graph.vertices.get vid = some vertex → index.ownerId ∈ vertex.labels →
    vertex.vectorFields graph.info pid = []
  /-- A vertex that does not have the property is not asked for by a null. -/
  present : ∀ {vid vertex}, graph.vertices.get vid = some vertex → index.ownerId ∈ vertex.labels →
    vertex.scalars.get pid = none → expected.val ≠ .null
  /-- A stored value that equals the expected one is the expected one, and the other way round. -/
  identical : ∀ {vid vertex stored}, graph.vertices.get vid = some vertex → index.ownerId ∈ vertex.labels →
    vertex.scalars.get pid = some stored → (stored.val.eq expected.val ↔ stored.val = expected.val)

theorem Value.null_eq_iff {value : Value} : Value.null.eq value ↔ value = .null := by
  cases value <;> simp [Value.eq]

theorem Graph.Comparable.getProperty_eq_iff {graph : Graph} {index : PropertyIndex} {pid : Nat} {expected : SizedValue}
    (comparable : graph.Comparable index pid expected)
    (found : graph.vertices.get vid = some vertex) (labelled : index.ownerId ∈ vertex.labels) :
    (vertex.getProperty graph.info pid).eq expected.val ↔ vertex.scalars.get pid = some expected := by
  rw [Vertex.getProperty, comparable.scalar found labelled, isEmpty_nil, if_pos rfl]
  cases stored : vertex.scalars.get pid with
  | none =>
    rw [Value.null_eq_iff]
    exact ⟨fun null => absurd null (comparable.present found labelled stored), nofun⟩
  | some value =>
    rw [comparable.identical found labelled stored, Option.some.injEq, Subtype.ext_iff]

theorem Graph.agrees_of_comparable {graph : Graph} {index : PropertyIndex} {properties : Table Nat SizedValue}
    (given : ∀ pid ∈ index.propertyIds, properties.contains pid)
    (comparable : ∀ pid ∈ index.propertyIds, ∀ value, properties.get pid = some value →
      graph.Comparable index pid value) : graph.Agrees index properties := by
  refine ⟨fun pid mem value known => (comparable pid mem value known).encodable, fun found labelled _ => ?_⟩
  refine forall₂_congr fun pid mem => ?_
  obtain ⟨expected, known⟩ := (contains_iff _ _).mp (given pid mem)
  rw [known, ← (comparable pid mem expected known).getProperty_eq_iff found labelled]
  simp

theorem exists_indexKey_iff {indexId : BitVec 32} {values : List Value} :
    (∃ key, indexKey indexId values = .ok key) ↔ ∀ value ∈ values, ∃ bytes, propertyIndexValue value = .ok bytes := by
  have encoded : (∃ bytes, propertyIndexValues values = .ok bytes) ↔
      ∀ value ∈ values, ∃ bytes, propertyIndexValue value = .ok bytes := by
    induction values with
    | nil => simp [propertyIndexValues]
    | cons value rest ih =>
      rw [forall_mem_cons, ← ih, propertyIndexValues]
      simp only [bind_eq_ok, pure_eq_ok]
      constructor
      · rintro ⟨_, first, firstDone, others, othersDone, -⟩
        exact ⟨⟨first, firstDone⟩, others, othersDone⟩
      · rintro ⟨⟨first, firstDone⟩, others, othersDone⟩
        exact ⟨_, first, firstDone, others, othersDone, rfl⟩
  rw [← encoded]
  simp only [indexKey, bind_eq_ok, pure_eq_ok]
  constructor
  · rintro ⟨_, bytes, done, -⟩
    exact ⟨bytes, done⟩
  · rintro ⟨bytes, done⟩
    exact ⟨_, bytes, done, rfl⟩

section Best

variable {graph : Graph} {lid : Nat} {properties : Table Nat SizedValue}

/-- An index that the lookup may use. -/
def Graph.Usable (graph : Graph) (lid : Nat) (properties : Table Nat SizedValue) (index : PropertyIndex) : Prop :=
  index ∈ graph.info.vertexPropertyIndexes ∧ index.state = .ready ∧ index.isUnique ∧ index.ownerId = lid ∧
    ∀ pid ∈ index.propertyIds, properties.contains pid

theorem Graph.usable_of_best {index : PropertyIndex} (best : graph.bestUniqueIndex lid properties = some index) :
    graph.Usable lid properties index := by
  -- Every index that the loop has kept so far is usable.
  suffices kept : ∀ index ∈ graph.bestUniqueIndex lid properties, graph.Usable lid properties index from
    kept index best
  refine foldlRecOn (motive := fun best => ∀ index ∈ best, graph.Usable lid properties index) _ _ nofun ?_
  intro best usable head mem index same
  unfold Graph.betterIndex at same
  split at same
  next fits =>
    have headUsable : graph.Usable lid properties head := ⟨mem, fits⟩
    cases best with
    | none => exact Option.some.inj same ▸ headUsable
    | some other =>
      dsimp only at same
      split at same
      · exact Option.some.inj same ▸ headUsable
      · exact usable index same
  · exact usable index same

end Best

section Lookup

variable {graph : Graph} {index : PropertyIndex} {properties left : Table Nat SizedValue}
  {expected : List SizedValue} (values : index.propertyIds.map properties.get = expected.map some)
  (remain : ∀ pid, left.get pid = if pid ∈ index.propertyIds then none else properties.get pid)

include remain in
theorem Graph.matching_left (found : graph.vertices.get vid = some vertex) : graph.matching left vid ↔
    ∀ pid ∉ index.propertyIds, ∀ value, properties.get pid = some value →
      (vertex.getProperty graph.info pid).eq value.val := by
  rw [Graph.matching_iff found]
  refine forall_congr' fun pid => ?_
  rw [remain]
  by_cases mem : pid ∈ index.propertyIds <;> simp [mem]

include remain in
theorem Graph.matching_iff_left (found : graph.vertices.get vid = some vertex) : graph.matching properties vid ↔
    (∀ pid ∈ index.propertyIds, ∀ value, properties.get pid = some value →
      (vertex.getProperty graph.info pid).eq value.val) ∧ graph.matching left vid := by
  rw [Graph.matching_left remain found, Graph.matching_iff found]
  constructor
  · exact fun holds => ⟨fun pid _ => holds pid, fun pid _ => holds pid⟩
  · rintro ⟨indexed, others⟩ pid
    by_cases mem : pid ∈ index.propertyIds
    · exact indexed pid mem
    · exact others pid mem

variable (serves : graph.Serves index) {key : Bytes}
  (encoded : indexKey (BitVec.ofNat 32 index.indexId) (expected.map Subtype.val) = .ok key)
include values serves encoded

/-- The entry of the key leads to the vertex with the label that has the expected values as its records. -/
theorem Graph.lookup_iff (found : graph.vertices.get vid = some vertex) (labelled : index.ownerId ∈ vertex.labels) :
    graph.indexEntries.lookup key = some vid ↔
      ∀ pid ∈ index.propertyIds, vertex.scalars.get pid = properties.get pid := by
  have length : expected.length = index.propertyIds.length := by
    rw [← length_map some, ← values, length_map]
  rw [serves.entry length encoded, ← map_inj_left, values, ← mapM_eq_some]
  constructor
  · rintro ⟨other, sameVid, -, indexed⟩
    rwa [Option.some.inj (found.symm.trans sameVid)]
  · exact fun indexed => ⟨vertex, found, labelled, indexed⟩

theorem Graph.mem_labelScan_of_lookup (leads : graph.indexEntries.lookup key = some vid) :
    vid ∈ graph.labelScan index.ownerId := by
  have length : expected.length = index.propertyIds.length := by
    rw [← length_map some, ← values, length_map]
  obtain ⟨vertex, found, labelled, -⟩ := (serves.entry length encoded vid).mp leads
  exact Graph.mem_labelScan.mpr ⟨vertex, found, labelled⟩

include remain

theorem Graph.labelScan_filter_eq_iff :
    (graph.indexEntries.lookup key).toList.filter (graph.matching left) =
      (graph.labelScan index.ownerId).filter (graph.matching properties) ↔
    ∀ {vid vertex}, graph.vertices.get vid = some vertex → index.ownerId ∈ vertex.labels → graph.matching left vid →
      ((∀ pid ∈ index.propertyIds, vertex.scalars.get pid = properties.get pid) ↔
        ∀ pid ∈ index.propertyIds, ∀ value, properties.get pid = some value →
          (vertex.getProperty graph.info pid).eq value.val) := by
  -- both sides are sublists of the scan, which has no vertex twice
  have filtered : (graph.indexEntries.lookup key).toList.filter (graph.matching left) =
      (graph.labelScan index.ownerId).filter fun vid =>
        graph.matching left vid && decide (graph.indexEntries.lookup key = some vid) := by
    cases leads : graph.indexEntries.lookup key with
    | none => simp
    | some owner =>
      have mem := Graph.mem_labelScan_of_lookup values serves encoded leads
      have once : (graph.labelScan index.ownerId).filter (fun vid => decide (some owner = some vid)) = [owner] := by
        have beq : (fun vid => decide (some owner = some vid)) = (· == owner) := by
          funext vid
          rw [Bool.eq_iff_iff, decide_eq_true_iff, Option.some.injEq, beq_iff_eq, eq_comm]
        rw [beq, filter_beq, count_eq_one_of_mem (graph.nodup_labelScan _) mem]
        rfl
      rw [← filter_filter, once]
      rfl
  have each : ∀ {vid vertex}, graph.vertices.get vid = some vertex → index.ownerId ∈ vertex.labels →
      (((graph.matching left vid && decide (graph.indexEntries.lookup key = some vid)) = graph.matching properties vid) ↔
        (graph.matching left vid → ((∀ pid ∈ index.propertyIds, vertex.scalars.get pid = properties.get pid) ↔
          ∀ pid ∈ index.propertyIds, ∀ value, properties.get pid = some value →
            (vertex.getProperty graph.info pid).eq value.val))) := by
    intro vid vertex found labelled
    rw [Bool.eq_iff_iff, Bool.and_eq_true, decide_eq_true_iff, Graph.matching_iff_left remain found,
      Graph.lookup_iff values serves encoded found labelled, and_comm, and_congr_left_iff]
  rw [filtered]
  constructor
  · intro same vid vertex found labelled
    have mem := Graph.mem_labelScan.mpr ⟨vertex, found, labelled⟩
    refine (each found labelled).mp (Bool.eq_iff_iff.mpr ?_)
    simpa [mem] using Iff.of_eq (congrArg (vid ∈ ·) same)
  · intro same
    refine filter_congr fun vid mem => ?_
    obtain ⟨vertex, found, labelled⟩ := Graph.mem_labelScan.mp mem
    exact (each found labelled).mpr (same found labelled)

end Lookup

namespace Graph

theorem resolve_withoutIndexes (graph : Graph) (props : List (String × SizedValue)) :
    ∀ found, graph.withoutIndexes.resolve props found = graph.resolve props found := by
  induction props with
  | nil => exact fun _ => rfl
  | cons entry rest ih =>
    intro found
    obtain ⟨name, value⟩ := entry
    have samePid : graph.withoutIndexes.getPid name = graph.getPid name := rfl
    rw [resolve, resolve, samePid]
    cases graph.getPid name with
    | none => rfl
    | some pid => exact ih _

theorem lookup_eq_scan_iff {graph : Graph} {index : PropertyIndex} {properties : Table Nat SizedValue}
    (serves : graph.Serves index) (given : ∀ pid ∈ index.propertyIds, properties.contains pid) :
    ∃ values left, takeIndexed index.propertyIds properties = some (values, left) ∧
      ((do let found ← graph.uniqueIndexIterator index values
           graph.filterUnlessEmpty left found) =
        graph.filterUnlessEmpty properties (graph.labelScan index.ownerId) ↔ graph.Agrees index properties) := by
  obtain ⟨expected, left, taken, values, remain⟩ := takeIndexed_eq_some serves.distinct given
  have encodable : (∀ value ∈ expected.map Subtype.val, ∃ bytes, propertyIndexValue value = .ok bytes) ↔
      ∀ pid ∈ index.propertyIds, ∀ value, properties.get pid = some value →
        ∃ bytes, propertyIndexValue value.val = .ok bytes := by
    simp only [forall_mem_map]
    constructor
    · intro each pid mem value known
      have inExpected : some value ∈ expected.map some := values ▸ known ▸ mem_map_of_mem mem
      simp only [mem_map, Option.some.injEq, exists_eq_right] at inExpected
      exact each value inExpected
    · intro each value inExpected
      have known : some value ∈ index.propertyIds.map properties.get := values ▸ mem_map_of_mem inExpected
      obtain ⟨pid, isIndexed, found⟩ := mem_map.mp known
      exact each pid isIndexed value found
  refine ⟨_, left, taken, ?_⟩
  rw [filterUnlessEmpty_eq contains_of_mem_labelScan, uniqueIndexIterator]
  cases encoded : indexKey (BitVec.ofNat 32 index.indexId) (expected.map Subtype.val) with
  | error error =>
    refine iff_of_false nofun fun agrees => ?_
    obtain ⟨key, done⟩ := exists_indexKey_iff.mpr (encodable.mpr agrees.encodable)
    cases encoded.symm.trans done
  | ok key =>
    have present : ∀ vid ∈ (graph.indexEntries.lookup key).toList, graph.vertices.contains vid := fun vid mem =>
      contains_of_mem_labelScan vid (mem_labelScan_of_lookup values serves encoded (Option.mem_toList.mp mem))
    change graph.filterUnlessEmpty left (graph.indexEntries.lookup key).toList = _ ↔ _
    rw [filterUnlessEmpty_eq present, Except.ok.injEq, labelScan_filter_eq_iff values remain serves encoded]
    constructor
    · intro same
      refine ⟨encodable.mp (exists_indexKey_iff.mp ⟨key, encoded⟩), fun found labelled others => ?_⟩
      exact same found labelled ((matching_left remain found).mpr others)
    · intro agrees vid vertex found labelled others
      exact agrees.same found labelled ((matching_left remain found).mp others)

end Graph

def scoreIndex : PropertyIndex := ⟨"byScore", true, "User", 1, 7, ["score"], [2], .ready⟩

def scoreGraph (stored : SizedValue) : Graph where
  lids := [("User", 1)]
  pids := [("score", 2)]
  info := { MetaInfo.empty with vertexPropertyIndexes := [scoreIndex] }
  vertices := Table.empty.put 10 ⟨[1], Table.empty.put 2 stored, []⟩
  indexEntries := []

theorem scoreGraph_serves {stored : SizedValue} {graph : Graph} (loaded : (scoreGraph stored).load scoreIndex = .ok graph)
    (sameInfo : graph.info = (scoreGraph stored).info) :
    ∀ index ∈ graph.info.vertexPropertyIndexes, index.state = .ready → index.isUnique → graph.Serves index := by
  intro index mem _ _
  rw [sameInfo] at mem
  obtain rfl := mem_singleton.mp mem
  exact Graph.serves_of_load (by decide) (fun _ => rfl) loaded

end RocksGraph.Storage
