import RocksGraph.Storage.IndexSeek

/-! The edges at a vertex (`IncidentEdgeIterator`, `edge_iterator.cc`).

Every edge has two records in the topology, one under its start and one under
its end. The iterator walks a queue of key prefixes, those of the outgoing
half first. With both directions it passes over the second record of a
self-loop. -/

set_option autoImplicit false

namespace RocksGraph.Storage

open Foundation List

inductive EdgeDirection where
  | outgoing
  | incoming
  | both
  deriving DecidableEq, Repr

structure TopologyEdge where
  id : BitVec 64
  startId : BitVec 64
  endId : BitVec 64
  typeId : BitVec 32
  deriving DecidableEq, Repr

/-- The column family `graph_topology`, in key order. -/
structure Topology where
  entries : List (Bytes × Bytes)
  sorted : entries.Pairwise fun first second => first.1 < second.1

/-- `ReadBigEndianId`, and what stands behind the id. -/
def readBigEndianId (width : Nat) (bytes : Bytes) : BitVec width × Bytes :=
  (BitVec.ofNat width (beValue (bytes.take (width / 8))), bytes.drop (width / 8))

/-- `LoadCurrent`: the edge of a record, unless it is to be passed over. -/
def loadCurrent (direction : EdgeDirection) (key : Bytes) : Option TopologyEdge :=
  let (vid1, rest) := readBigEndianId 64 key
  match rest with
  | [] => none
  | dir :: rest =>
    let (etid, rest) := readBigEndianId 32 rest
    let (vid2, rest) := readBigEndianId 64 rest
    let (eid, _) := readBigEndianId 64 rest
    if direction = .both ∧ dir = 1 ∧ vid1 = vid2 then none
    else if dir = 0 then some ⟨eid, vid1, vid2, etid⟩
    else some ⟨eid, vid2, vid1, etid⟩

/-- `records` are those behind the current one, and there is an edge while the iterator is valid. -/
structure IncidentEdgeIterator where
  records : List (Bytes × Bytes)
  start : Bytes
  prefixes : List Bytes
  edge : Option TopologyEdge

def nextLoaded (direction : EdgeDirection) (start : Bytes) :
    List (Bytes × Bytes) → Option (TopologyEdge × List (Bytes × Bytes))
  | [] => none
  | record :: rest =>
    if start.isPrefixOf record.1 then
      match loadCurrent direction record.1 with
      | some edge => some (edge, rest)
      | none => nextLoaded direction start rest
    else none

def Topology.seek (topology : Topology) (start : Bytes) : List (Bytes × Bytes) :=
  topology.entries.dropWhile fun record => record.1 < start

def Topology.seekToNextPrefix (topology : Topology) (direction : EdgeDirection) : List Bytes → IncidentEdgeIterator
  | [] => ⟨[], [], [], none⟩
  | start :: prefixes =>
    match nextLoaded direction start (topology.seek start) with
    | some (edge, records) => ⟨records, start, prefixes, some edge⟩
    | none => topology.seekToNextPrefix direction prefixes

def Topology.next (topology : Topology) (direction : EdgeDirection) (iterator : IncidentEdgeIterator) :
    IncidentEdgeIterator :=
  match nextLoaded direction iterator.start iterator.records with
  | some (edge, records) => { iterator with records, edge := some edge }
  | none => topology.seekToNextPrefix direction iterator.prefixes

/-- The prefixes of one half, `dir` being 0 for the outgoing one. -/
def halfPrefixes (vid : BitVec 64) (types : List (BitVec 32)) (dir : UInt8) : List Bytes :=
  if types = [] then [beWord vid ++ [dir]] else types.map fun type => beWord vid ++ dir :: beWord type

def EdgeDirection.halves : EdgeDirection → List UInt8
  | .outgoing => [0]
  | .incoming => [1]
  | .both => [0, 1]

/-- The constructor. The types come in the order of the hash set. -/
def Topology.incidentEdges (topology : Topology) (vid : BitVec 64) (direction : EdgeDirection)
    (types : List (BitVec 32)) : IncidentEdgeIterator :=
  topology.seekToNextPrefix direction (direction.halves.flatMap (halfPrefixes vid types))

/-- `GetEdge` and `Next` as long as the iterator is valid. -/
def Topology.drain (topology : Topology) (direction : EdgeDirection) :
    (fuel : Nat) → IncidentEdgeIterator → Option (List TopologyEdge)
  | 0, _ => none
  | fuel + 1, iterator =>
    match iterator.edge with
    | none => some []
    | some edge => (topology.drain direction fuel (topology.next direction iterator)).map (edge :: ·)

section Drain

variable {topology : Topology} {direction : EdgeDirection} {start : Bytes}

def loaded (direction : EdgeDirection) (start : Bytes) (records : List (Bytes × Bytes)) : List TopologyEdge :=
  (records.takeWhile fun record => start.isPrefixOf record.1).filterMap fun record => loadCurrent direction record.1

theorem loaded_eq (records : List (Bytes × Bytes)) : loaded direction start records =
    match nextLoaded direction start records with
    | some (edge, rest) => edge :: loaded direction start rest
    | none => [] := by
  induction records with
  | nil => rfl
  | cons record rest ih =>
    unfold nextLoaded
    by_cases inside : start.isPrefixOf record.1
    · rw [if_pos inside]
      cases found : loadCurrent direction record.1 with
      | some edge => simp [loaded, inside, found]
      | none =>
        simp only [← ih]
        simp [loaded, inside, found]
    · simp [loaded, inside]

def Topology.remaining (topology : Topology) (direction : EdgeDirection) (iterator : IncidentEdgeIterator) :
    List TopologyEdge :=
  match iterator.edge with
  | none => []
  | some edge => edge :: (loaded direction iterator.start iterator.records ++
      iterator.prefixes.flatMap fun start => loaded direction start (topology.seek start))

theorem remaining_seekToNextPrefix (prefixes : List Bytes) :
    topology.remaining direction (topology.seekToNextPrefix direction prefixes) =
      prefixes.flatMap fun start => loaded direction start (topology.seek start) := by
  induction prefixes with
  | nil => rfl
  | cons start prefixes ih =>
    rw [Topology.seekToNextPrefix, flatMap_cons, loaded_eq]
    cases nextLoaded direction start (topology.seek start) with
    | some found => rfl
    | none => simpa using ih

theorem remaining_next {iterator : IncidentEdgeIterator} {edge : TopologyEdge} (valid : iterator.edge = some edge) :
    topology.remaining direction iterator =
      edge :: topology.remaining direction (topology.next direction iterator) := by
  rw [Topology.remaining, valid, Topology.next, loaded_eq]
  cases nextLoaded direction iterator.start iterator.records with
  | some found => rfl
  | none => simp [remaining_seekToNextPrefix]

theorem drain_remaining (iterator : IncidentEdgeIterator) :
    topology.drain direction ((topology.remaining direction iterator).length + 1) iterator =
      some (topology.remaining direction iterator) := by
  -- by induction on what is left: `Next` takes one edge off it
  generalize left : topology.remaining direction iterator = edges
  induction edges generalizing iterator with
  | nil =>
    cases valid : iterator.edge with
    | none => simp [Topology.drain, valid]
    | some edge => simp [remaining_next valid] at left
  | cons edge edges ih =>
    cases valid : iterator.edge with
    | none => simp [Topology.remaining, valid] at left
    | some first =>
      rw [remaining_next valid] at left
      obtain ⟨rfl, rest⟩ := cons.inj left
      rw [Topology.drain]
      simp [valid, ih _ rest]

end Drain

def TopologyEdge.near (edge : TopologyEdge) (dir : UInt8) : BitVec 64 := if dir = 0 then edge.startId else edge.endId

def TopologyEdge.far (edge : TopologyEdge) (dir : UInt8) : BitVec 64 := if dir = 0 then edge.endId else edge.startId

/-- The out key (0) and the in key (1) that `CreateEdge` puts. -/
def TopologyEdge.key (edge : TopologyEdge) (dir : UInt8) : Bytes :=
  beWord (edge.near dir) ++ dir :: (beWord edge.typeId ++ (beWord (edge.far dir) ++ beWord edge.id))

/-- The records are those of the vertices and the two of each edge. -/
def Topology.Consistent (topology : Topology) (vertices : List (BitVec 64)) (edges : List TopologyEdge) : Prop :=
  ∀ key, key ∈ topology.entries.map Prod.fst ↔
    (∃ vid ∈ vertices, key = beWord vid) ∨ ∃ edge ∈ edges, key = edge.key 0 ∨ key = edge.key 1

def EdgeDirection.Incident (vid : BitVec 64) (edge : TopologyEdge) : EdgeDirection → Prop
  | .outgoing => edge.startId = vid
  | .incoming => edge.endId = vid
  | .both => edge.startId = vid ∨ edge.endId = vid

/-- The second record of a self-loop, when both directions are asked for. -/
def EdgeDirection.PassesOver (direction : EdgeDirection) (dir : UInt8) (edge : TopologyEdge) : Prop :=
  direction = .both ∧ dir = 1 ∧ edge.startId = edge.endId

theorem readBigEndianId_beWord {width : Nat} (whole : 8 ∣ width) (word : BitVec width) (rest : Bytes) :
    readBigEndianId width (beWord word ++ rest) = (word, rest) := by
  have length : (beWord word).length = width / 8 := length_beWord word
  rw [readBigEndianId, take_left' length, drop_left' length, beValue_beWord whole, BitVec.ofNat_toNat,
    BitVec.setWidth_eq]

section Consistent

variable {topology : Topology} {vertices : List (BitVec 64)} {edges : List TopologyEdge} {direction : EdgeDirection}
  {vid : BitVec 64} {types : List (BitVec 32)} {dir : UInt8} {type : Option (BitVec 32)} {edge : TopologyEdge}

open TopologyEdge

theorem loadCurrent_key (half : dir = 0 ∨ dir = 1) (found : TopologyEdge) :
    loadCurrent direction (edge.key dir) = some found ↔ edge = found ∧ ¬ direction.PassesOver dir edge := by
  have last := readBigEndianId_beWord (by decide) edge.id []
  rw [append_nil] at last
  rw [loadCurrent, key]
  simp only [readBigEndianId_beWord (by decide : 8 ∣ 64), readBigEndianId_beWord (by decide : 8 ∣ 32), last,
    EdgeDirection.PassesOver]
  rcases half with rfl | rfl
  · simp [near, far]
  · simp [near, far, eq_comm (a := edge.endId), and_comm]

def halfPrefix (vid : BitVec 64) (dir : UInt8) (type : Option (BitVec 32)) : Bytes :=
  beWord vid ++ dir :: (type.map beWord).getD []

def typeChoices (types : List (BitVec 32)) : List (Option (BitVec 32)) :=
  if types = [] then [none] else types.map some

theorem halfPrefixes_eq : halfPrefixes vid types dir = (typeChoices types).map (halfPrefix vid dir) := by
  unfold halfPrefixes typeChoices
  split
  · rfl
  · rw [map_map]
    rfl

theorem halfPrefix_key {other : UInt8} : halfPrefix vid dir type <+: edge.key other ↔
      edge.near other = vid ∧ other = dir ∧ ∀ wanted ∈ type, edge.typeId = wanted := by
  have whole : 8 ∣ 64 := by decide
  have half : 8 ∣ 32 := by decide
  constructor
  · rintro ⟨tail, same⟩
    rw [halfPrefix, append_assoc] at same
    obtain ⟨rfl, rest⟩ := beWord_delimits whole same
    obtain ⟨rfl, rest⟩ := cons.inj rest
    refine ⟨rfl, rfl, ?_⟩
    rintro wanted ⟨⟩
    exact (beWord_delimits half rest).1.symm
  · rintro ⟨rfl, rfl, typed⟩
    rw [halfPrefix, key, prefix_append_right_inj, cons_prefix_cons]
    refine ⟨rfl, ?_⟩
    cases type with
    | none => exact nil_prefix
    | some wanted =>
      rw [typed wanted rfl]
      exact prefix_append _ _

theorem Topology.Consistent.mem_prefix (consistent : topology.Consistent vertices edges) (half : dir = 0 ∨ dir = 1)
    {key : Bytes} : (∃ value, (key, value) ∈ topology.entries) ∧ halfPrefix vid dir type <+: key ↔
      ∃ edge ∈ edges, key = edge.key dir ∧ edge.near dir = vid ∧ ∀ wanted ∈ type, edge.typeId = wanted := by
  have stored : (∃ value, (key, value) ∈ topology.entries) ↔ key ∈ topology.entries.map Prod.fst := by simp
  rw [stored, consistent key]
  constructor
  · rintro ⟨⟨vertex, -, rfl⟩ | ⟨edge, mem, isKey⟩, begins⟩
    · have := begins.length_le
      simp [halfPrefix] at this
    · rcases isKey with rfl | rfl <;> obtain ⟨near, rfl, typed⟩ := halfPrefix_key.mp begins <;>
        exact ⟨edge, mem, rfl, near, typed⟩
  · rintro ⟨edge, mem, rfl, near, typed⟩
    refine ⟨.inr ⟨edge, mem, ?_⟩, halfPrefix_key.mpr ⟨near, rfl, typed⟩⟩
    rcases half with rfl | rfl
    · exact .inl rfl
    · exact .inr rfl

theorem loaded_seek (start : Bytes) : loaded direction start (topology.seek start) =
    (topology.entries.filter fun record => start.isPrefixOf record.1).filterMap fun record =>
      loadCurrent direction record.1 := by
  rw [loaded, Topology.seek, takeWhile_dropWhile_eq_filter topology.sorted]

theorem Topology.Consistent.mem_loaded (consistent : topology.Consistent vertices edges) (half : dir = 0 ∨ dir = 1) :
    edge ∈ loaded direction (halfPrefix vid dir type) (topology.seek (halfPrefix vid dir type)) ↔
      edge ∈ edges ∧ edge.near dir = vid ∧ (∀ wanted ∈ type, edge.typeId = wanted) ∧
        ¬ direction.PassesOver dir edge := by
  simp only [loaded_seek, mem_filterMap, mem_filter, isPrefixOf_iff_prefix]
  constructor
  · rintro ⟨⟨key, value⟩, ⟨mem, begins⟩, read⟩
    obtain ⟨other, inside, rfl, near, typed⟩ := (consistent.mem_prefix half).mp ⟨⟨value, mem⟩, begins⟩
    obtain ⟨rfl, kept⟩ := (loadCurrent_key half edge).mp read
    exact ⟨inside, near, typed, kept⟩
  · rintro ⟨inside, near, typed, kept⟩
    obtain ⟨⟨value, mem⟩, begins⟩ := (consistent.mem_prefix half).mpr ⟨edge, inside, rfl, near, typed⟩
    exact ⟨_, ⟨mem, begins⟩, (loadCurrent_key half edge).mpr ⟨rfl, kept⟩⟩

theorem Topology.Consistent.nodup_loaded (consistent : topology.Consistent vertices edges)
    (half : dir = 0 ∨ dir = 1) :
    (loaded direction (halfPrefix vid dir type) (topology.seek (halfPrefix vid dir type))).Nodup := by
  rw [loaded_seek, List.Nodup, pairwise_filterMap]
  refine (topology.sorted.filter _).imp_of_mem fun {first second} firstIn secondIn less => ?_
  rintro edge read _ otherRead rfl
  -- two records of one half with the same edge are one record
  have keyOf : ∀ record ∈ topology.entries.filter fun record => (halfPrefix vid dir type).isPrefixOf record.1,
      loadCurrent direction record.1 = some edge → record.1 = edge.key dir := by
    rintro ⟨key, value⟩ mem read
    obtain ⟨stored, begins⟩ := mem_filter.mp mem
    obtain ⟨other, -, rfl, -⟩ :=
      (consistent.mem_prefix half).mp ⟨⟨value, stored⟩, List.isPrefixOf_iff_prefix.mp begins⟩
    rw [((loadCurrent_key half edge).mp read).1]
  rw [keyOf first firstIn read, keyOf second secondIn otherRead] at less
  exact List.lt_irrefl _ less

def Topology.half (topology : Topology) (direction : EdgeDirection) (vid : BitVec 64) (types : List (BitVec 32))
    (dir : UInt8) : List TopologyEdge :=
  (halfPrefixes vid types dir).flatMap fun start => loaded direction start (topology.seek start)

theorem mem_typeChoices : (∃ type ∈ typeChoices types, ∀ wanted ∈ type, edge.typeId = wanted) ↔
    types = [] ∨ edge.typeId ∈ types := by
  unfold typeChoices
  split <;> simp_all

theorem Topology.Consistent.mem_half (consistent : topology.Consistent vertices edges) (half : dir = 0 ∨ dir = 1) :
    edge ∈ topology.half direction vid types dir ↔ edge ∈ edges ∧ edge.near dir = vid ∧
      (types = [] ∨ edge.typeId ∈ types) ∧ ¬ direction.PassesOver dir edge := by
  rw [Topology.half, halfPrefixes_eq, flatMap_map, mem_flatMap, ← mem_typeChoices]
  constructor
  · rintro ⟨type, choice, mem⟩
    obtain ⟨inside, near, typed, kept⟩ := (consistent.mem_loaded half).mp mem
    exact ⟨inside, near, ⟨type, choice, typed⟩, kept⟩
  · rintro ⟨inside, near, ⟨type, choice, typed⟩, kept⟩
    exact ⟨type, choice, (consistent.mem_loaded half).mpr ⟨inside, near, typed, kept⟩⟩

theorem Topology.Consistent.nodup_half (consistent : topology.Consistent vertices edges) (distinct : types.Nodup)
    (half : dir = 0 ∨ dir = 1) : (topology.half direction vid types dir).Nodup := by
  rw [Topology.half, halfPrefixes_eq, flatMap_map]
  refine nodup_flatMap.mpr ⟨fun type _ => consistent.nodup_loaded half, ?_⟩
  unfold typeChoices
  split
  · exact pairwise_singleton _ _
  refine pairwise_map.mpr (distinct.imp fun {first second} apart edge inFirst inSecond => apart ?_)
  rw [← ((consistent.mem_loaded half).mp inFirst).2.2.1 first rfl]
  exact ((consistent.mem_loaded half).mp inSecond).2.2.1 second rfl

open EdgeDirection

/-- The iterator ends, and until then yields each edge at the vertex in the direction and of the types once. -/
theorem Topology.Consistent.incidentEdges_exact (consistent : topology.Consistent vertices edges)
    (distinct : types.Nodup) (vid : BitVec 64) (direction : EdgeDirection) :
    ∃ fuel found, topology.drain direction fuel (topology.incidentEdges vid direction types) = some found ∧
      found.Nodup ∧ ∀ edge, edge ∈ found ↔
        edge ∈ edges ∧ direction.Incident vid edge ∧ (types = [] ∨ edge.typeId ∈ types) := by
  have out : (0 : UInt8) = 0 ∨ (0 : UInt8) = 1 := .inl rfl
  have into : (1 : UInt8) = 0 ∨ (1 : UInt8) = 1 := .inr rfl
  have whole : topology.remaining direction (topology.incidentEdges vid direction types) =
      direction.halves.flatMap (topology.half direction vid types) := by
    rw [Topology.incidentEdges, remaining_seekToNextPrefix, flatMap_assoc]
    rfl
  refine ⟨_, _, drain_remaining _, ?_, fun edge => ?_⟩ <;> rw [whole]
  · cases direction with
    | outgoing => simpa [halves] using consistent.nodup_half distinct out
    | incoming => simpa [halves] using consistent.nodup_half distinct into
    | both =>
      rw [halves, flatMap_cons, flatMap_singleton]
      refine (consistent.nodup_half distinct out).append (consistent.nodup_half distinct into) ?_
      -- an edge of both halves is a self-loop
      intro edge left right
      obtain ⟨-, starts, -⟩ := (consistent.mem_half out).mp left
      obtain ⟨-, ends, -, kept⟩ := (consistent.mem_half into).mp right
      exact kept ⟨rfl, rfl, starts.trans ends.symm⟩
  · cases direction with
    | outgoing | incoming =>
      simp [halves, consistent.mem_half, EdgeDirection.Incident, near,
        EdgeDirection.PassesOver]
    | both =>
      simp only [halves, flatMap_cons, mem_append,
        consistent.mem_half out, consistent.mem_half into, EdgeDirection.Incident, near,
        EdgeDirection.PassesOver]
      grind

end Consistent

def loopTopology : Topology where
  entries := [(beWord (1 : BitVec 64), []), (TopologyEdge.key ⟨7, 1, 1, 2⟩ 0, []), (TopologyEdge.key ⟨7, 1, 1, 2⟩ 1, [])]
  sorted := by decide +kernel

theorem incidentEdges_exact_loop : ∃ fuel found,
    loopTopology.drain .both fuel (loopTopology.incidentEdges 1 .both []) = some found ∧ found.Nodup ∧
      ⟨7, 1, 1, 2⟩ ∈ found := by
  have consistent : loopTopology.Consistent [1] [⟨7, 1, 1, 2⟩] := by
    intro key
    simp [loopTopology]
  obtain ⟨fuel, found, drained, nodup, mem_found⟩ := consistent.incidentEdges_exact nodup_nil 1 .both
  exact ⟨fuel, found, drained, nodup, (mem_found _).mpr ⟨mem_singleton_self _, .inl rfl, .inl rfl⟩⟩

end RocksGraph.Storage
