import RocksGraph.Storage.VertexWrites

/-! What a property of a vertex reads as after a sequence of changes.

Every call that gives a property a value is remembered beside the records, so
that a read can be compared with the last one. A property that becomes a vector
field keeps its scalar record, and a later write of the field leaves that record
behind. -/

set_option autoImplicit false

namespace RocksGraph.Storage

open Foundation Catalog List Option

structure WrittenVertex where
  vertex : Vertex
  latest : Table Nat SizedValue

def Rounding.read (rounding : Rounding) : Value → Value
  | .list items => .list (items.map fun item =>
      match rounding.component item with
      | some bits => .double bits
      | none => item)
  | value => value

theorem Rounding.Parses.read_eq {rounding : Rounding} {value : Value} {vector : List (BitVec 64)}
    (parses : rounding.Parses value vector) : rounding.read value = .list (vector.map .double) := by
  obtain ⟨dimensions, parsed⟩ := parses
  unfold tryParseVectorValue at parsed
  split at parsed
  next items =>
    split at parsed
    · have components := mapM_eq_some.mp parsed
      rw [Rounding.read, Value.list.injEq]
      apply ext_getElem?
      intro position
      have here := congrArg (fun list => list[position]?) components
      simp only [getElem?_map] at here ⊢
      cases item : items[position]? <;> cases bits : vector[position]? <;> simp_all
    · cases parsed
  · cases parsed

namespace WrittenVertex

variable (rounding : Rounding) (info : MetaInfo)

/-- A call that throws leaves the transaction to be rolled back and is no step. -/
def step (state : WrittenVertex) : VertexCall → Option WrittenVertex
  | .setProperties values =>
    (state.vertex.setProperties rounding info values).toOption.map fun done =>
      ⟨done.1, state.latest.overlay values⟩
  | .removeProperty pid => some ⟨(state.vertex.removeProperty info pid).1, state.latest.erase pid⟩
  | .removeAllProperty => some ⟨(state.vertex.removeAllProperty info).1, .empty⟩
  | .addLabels labels =>
    (state.vertex.addLabels rounding info labels).toOption.map fun done => ⟨done.1, state.latest⟩
  | .deleteLabels labels => some ⟨(state.vertex.deleteLabels info labels).1, state.latest⟩

/-- Every property reads as null or as the value that was given last, rounded where
it is read from a vector field. -/
def LastWrite (state : WrittenVertex) : Prop :=
  ∀ pid, state.vertex.getProperty info pid = .null ∨ ∃ value, state.latest.get pid = some value ∧
    state.vertex.getProperty info pid =
      if (state.vertex.vectorFields info pid).isEmpty then value.val else rounding.read value.val

/-- A vector field is written only where there is no scalar record of the property. -/
def noScalarLeft (state : WrittenVertex) : VertexCall → Prop
  | .setProperties values => ∀ entry ∈ values.entries,
    (state.vertex.vectorFields info entry.1).isEmpty = false → state.vertex.scalars.get entry.1 = none
  | _ => True

/-- No record is out of date, and vector records stand under fields of the labels only. -/
structure Current (state : WrittenVertex) : Prop where
  scalar : ∀ pid value, state.vertex.scalars.get pid = some value → state.latest.get pid = some value
  vector : ∀ lid pid vector, state.vertex.vectors.lookup (lid, pid) = some vector →
    HasField info state.vertex.labels lid pid ∧
      ∃ value, state.latest.get pid = some value ∧ rounding.Parses value.val vector

variable {rounding info} {state next : WrittenVertex}

section

variable (current : state.Current rounding info)
include current

theorem Current.lastWrite : state.LastWrite rounding info := by
  intro pid
  unfold Vertex.getProperty
  split
  · cases scalar : state.vertex.scalars.get pid with
    | none => exact .inl rfl
    | some value => exact .inr ⟨value, current.scalar pid value scalar, rfl⟩
  · cases loaded : state.vertex.loadVector info pid with
    | none => exact .inl rfl
    | some vector =>
      obtain ⟨lid, -, stored⟩ := lookup_of_loadVector loaded
      obtain ⟨-, value, latest, parses⟩ := current.vector lid pid vector stored
      exact .inr ⟨value, latest, parses.read_eq.symm⟩

theorem Current.setProperties {values : Table Nat SizedValue}
    (clear : state.noScalarLeft info (.setProperties values)) {vertex : Vertex}
    (written : state.vertex.writeProperties rounding info values = .ok vertex) :
    Current rounding info ⟨vertex, state.latest.overlay values⟩ := by
  obtain ⟨labels, scalars, vectors⟩ := writeProperties_spec written
  constructor
  · intro pid value found
    rw [scalars] at found
    rw [Table.get_overlay]
    split at found
    · rcases or_eq_some_iff.mp found with given | ⟨missing, old⟩
      · rw [given, some_or]
      · rw [missing, none_or, current.scalar pid value old]
    · -- The record of a vector field is an old one, so the field was not written.
      rename_i fields
      have missing : values.get pid = none := by
        by_contra given
        obtain ⟨other, given⟩ := ne_none_iff_exists'.mp given
        have gone := clear (pid, other) ((Table.get_eq_some_iff _).mp given) (by simpa using fields)
        rw [gone] at found
        cases found
      rw [missing, none_or, current.scalar pid value found]
  · intro lid pid vector found
    rw [labels, Table.get_overlay]
    rcases vectors lid pid vector found with ⟨has, value, given, parses⟩ | ⟨unwritten, old⟩
    · exact ⟨has, value, by rw [given, some_or], parses⟩
    · obtain ⟨has, value, latest, parses⟩ := current.vector lid pid vector old
      exact ⟨has, value, by rw [unwritten has, none_or, latest], parses⟩

theorem Current.removeProperty (pid : Nat) :
    Current rounding info ⟨(state.vertex.removeProperty info pid).1, state.latest.erase pid⟩ := by
  obtain ⟨labels, scalars, vectors⟩ := removeProperty_spec info state.vertex pid
  constructor
  · intro other value found
    rw [scalars] at found
    rw [Table.get_erase]
    split at found
    · cases found
    next differs =>
      rw [if_neg differs, current.scalar other value found]
  · intro lid other vector found
    obtain ⟨old, kept⟩ := vectors lid other vector found
    obtain ⟨has, value, latest, parses⟩ := current.vector lid other vector old
    exact ⟨labels ▸ has, value, by rw [Table.get_erase, if_neg (kept has), latest], parses⟩

theorem Current.removeAllProperty :
    Current rounding info ⟨(state.vertex.removeAllProperty info).1, .empty⟩ := by
  obtain ⟨-, scalars, vectors⟩ := removeAllProperty_spec info state.vertex
  constructor
  · intro pid value found
    cases found
  · intro lid pid vector found
    obtain ⟨old, noField⟩ := vectors lid pid vector found
    exact absurd (current.vector lid pid vector old).1 noField

theorem Current.addLabels {labels : List Nat} {vertex : Vertex}
    {change : Option IndexChange} (done : state.vertex.addLabels rounding info labels = .ok (vertex, change)) :
    Current rounding info ⟨vertex, state.latest⟩ := by
  obtain ⟨⟨added, grown⟩, scalars, vectors⟩ := addLabels_spec done
  constructor
  · intro pid value found
    exact current.scalar pid value (scalars ▸ found)
  · intro lid pid vector found
    rcases vectors lid pid vector found with old | ⟨has, stored | ⟨value, scalar, parses⟩⟩
    · obtain ⟨⟨labelled, isField⟩, rest⟩ := current.vector lid pid vector old
      exact ⟨⟨by rw [grown]; exact mem_append_left _ labelled, isField⟩, rest⟩
    · obtain ⟨other, -, stored⟩ := lookup_of_loadVector stored
      exact ⟨has, (current.vector other pid vector stored).2⟩
    · exact ⟨has, value, current.scalar pid value scalar, parses⟩

theorem Current.deleteLabels (labels : List Nat) :
    Current rounding info ⟨(state.vertex.deleteLabels info labels).1, state.latest⟩ := by
  obtain ⟨remaining, scalars, vectors⟩ := deleteLabels_spec info state.vertex labels
  constructor
  · intro pid value found
    exact current.scalar pid value (scalars ▸ found)
  · intro lid pid vector found
    obtain ⟨old, notRemoved⟩ := vectors lid pid vector found
    obtain ⟨⟨labelled, isField⟩, rest⟩ := current.vector lid pid vector old
    refine ⟨⟨?_, isField⟩, rest⟩
    rw [remaining, mem_filter]
    refine ⟨labelled, ?_⟩
    by_contra removed
    exact notRemoved ⟨mem_filter.mpr ⟨labelled, by simpa using removed⟩, isField⟩

theorem Current.step {call : VertexCall}
    (clear : state.noScalarLeft info call) (taken : state.step rounding info call = some next) :
    next.Current rounding info := by
  cases call with
  | setProperties values =>
    obtain ⟨⟨vertex, change⟩, done, rfl⟩ := map_eq_some_iff.mp taken
    exact current.setProperties clear (writeProperties_of_setProperties (toOption_eq_some.mp done))
  | removeProperty pid =>
    cases taken
    exact current.removeProperty pid
  | removeAllProperty =>
    cases taken
    exact current.removeAllProperty
  | addLabels labels =>
    obtain ⟨⟨vertex, change⟩, done, rfl⟩ := map_eq_some_iff.mp taken
    exact current.addLabels (toOption_eq_some.mp done)
  | deleteLabels labels =>
    cases taken
    exact current.deleteLabels labels

end

/-- In every sequence of calls after the creation of a vertex in which a vector field
is written only where its property has no scalar record, every property reads as
null or as the value that was given last. -/
theorem lastWrite_of_noScalarLeft {labels : List Nat} {values : Table Nat SizedValue} {vertex : Vertex}
    {change : Option IndexChange} (created : Vertex.create rounding info labels values = .ok (vertex, change))
    {calls : List VertexCall} (run : Runs (step rounding info) (noScalarLeft info) ⟨vertex, values⟩ calls state) :
    state.LastWrite rounding info := by
  rw [Vertex.create, bind_eq_ok] at created
  obtain ⟨next, written, done⟩ := created
  cases done
  obtain ⟨isLabelled, scalars, vectors⟩ := writeProperties_spec written
  refine (run.invariant (Current rounding info) ⟨?_, ?_⟩ fun _ _ _ current clear taken => current.step clear taken).lastWrite
  · intro pid value found
    rw [scalars] at found
    split at found
    · simpa using found
    · cases found
  · intro lid pid vector found
    rcases vectors lid pid vector found with ⟨has, value, given, parses⟩ | ⟨-, old⟩
    · exact ⟨isLabelled ▸ has, value, given, parses⟩
    · cases old

namespace Example

/-- Property 2 is a vector field of label 1. -/
def catalog : MetaInfo := { MetaInfo.empty with vectorFields := [⟨"Item", 1, "embedding", 2, 1⟩] }

def single (bits : BitVec 64) : SizedValue := ⟨.list [.double bits], rfl⟩

def embedding (bits : BitVec 64) : Table Nat SizedValue := Table.empty.put 2 (single bits)

end Example

open Example in
/-- A vector that is written, kept when another label comes and goes, and written again. -/
theorem lastWrite_relabelled : ∃ labels values vertex change calls state,
    Vertex.create .exact catalog labels values = .ok (vertex, change) ∧
    Runs (step .exact catalog) (noScalarLeft catalog) ⟨vertex, values⟩ calls state ∧
    state.vertex.getProperty catalog 2 = .list [.double 7] ∧ state.LastWrite .exact catalog := by
  let start : WrittenVertex := ⟨⟨[1], .empty, [((1, 2), [5])]⟩, embedding 5⟩
  let written : WrittenVertex := ⟨⟨[1], .empty, [((1, 2), [7])]⟩, (embedding 5).overlay (embedding 7)⟩
  let labelled : WrittenVertex := { written with vertex := { written.vertex with labels := [1, 3] } }
  have created : Vertex.create .exact catalog [1] (embedding 5) =
      .ok (start.vertex, some ⟨[], [1], .empty, .empty, [2]⟩) := rfl
  have run : Runs (step .exact catalog) (noScalarLeft catalog) start
      [.setProperties (embedding 7), .addLabels [3], .deleteLabels [3]] written := by
    refine .snoc (.snoc (.snoc .nil ?_ (show _ = some written from rfl)) trivial (show _ = some labelled from rfl))
      trivial rfl
    intro entry mem _
    rfl
  exact ⟨_, _, _, _, _, _, created, run, rfl, lastWrite_of_noScalarLeft created run⟩

open Example in
/-- A scalar that becomes a vector field and is written there comes back when the label goes. -/
theorem not_lastWrite_staleScalar : ∃ labels values vertex change calls state,
    Vertex.create .exact catalog labels values = .ok (vertex, change) ∧
    Runs (step .exact catalog) anyAction ⟨vertex, values⟩ calls state ∧
    state.latest.get 2 = some (single 7) ∧ state.vertex.getProperty catalog 2 = .list [.double 5] ∧
    ¬ state.LastWrite .exact catalog := by
  let start : WrittenVertex := ⟨⟨[], embedding 5, []⟩, embedding 5⟩
  let labelled : WrittenVertex := ⟨⟨[1], embedding 5, [((1, 2), [5])]⟩, embedding 5⟩
  let written : WrittenVertex :=
    ⟨⟨[1], embedding 5, [((1, 2), [7])]⟩, (embedding 5).overlay (embedding 7)⟩
  let unlabelled : WrittenVertex := ⟨⟨[], embedding 5, []⟩, (embedding 5).overlay (embedding 7)⟩
  have created : Vertex.create .exact catalog [] (embedding 5) =
      .ok (start.vertex, some ⟨[], [], .empty, embedding 5, [2]⟩) := rfl
  have run : Runs (step .exact catalog) anyAction start
      [.addLabels [1], .setProperties (embedding 7), .deleteLabels [1]] unlabelled :=
    .snoc (.snoc (.snoc .nil trivial (show _ = some labelled from rfl)) trivial (show _ = some written from rfl))
      trivial rfl
  have read : unlabelled.vertex.getProperty catalog 2 = .list [.double 5] := rfl
  refine ⟨_, _, _, _, _, _, created, run, rfl, read, fun last => ?_⟩
  rcases last 2 with null | ⟨value, latest, same⟩
  · cases read.symm.trans null
  · obtain rfl : single 7 = value := some.inj latest
    cases read.symm.trans same

end WrittenVertex

end RocksGraph.Storage
