import RocksGraph.Storage.VertexWrites

/-! What the changes of a vertex log for a full-text index
(`vertex_index_updater.cc`).

A change of a vertex builds the document before and after it from what it read,
and logs the difference for the index. Property names are given by a function of
their ids. -/

set_option autoImplicit false

namespace RocksGraph.Storage

open Foundation Catalog List Option Vertex Table

structure FullTextDocument where
  fields : List String
  values : List Bytes
  deriving DecidableEq

namespace FullTextDocument

def ofTexts (texts : List (String × Bytes)) : FullTextDocument := ⟨texts.map Prod.fst, texts.map Prod.snd⟩

def isEmpty (document : FullTextDocument) : Bool := document.fields.isEmpty

def kept (document : FullTextDocument) : List FullTextDocument :=
  if document.isEmpty then [] else [document]

end FullTextDocument

def stringValue : Option SizedValue → Option Bytes
  | some ⟨.string text, _⟩ => some text
  | _ => none

def nonemptyText (value : Option SizedValue) : Option Bytes :=
  (stringValue value).filter fun text => !text.isEmpty

@[simp] theorem nonemptyText_none : nonemptyText none = none := rfl

def matchLabelIds (index : FullTextIndex) (labels : List Nat) : Bool := labels.any index.labelIds.contains

def matchPropertyIds (index : FullTextIndex) (pids : List Nat) : Bool := pids.any index.propertyIds.contains

section Updates

variable (propertyName : Nat → String) (index : FullTextIndex)

def textDocument (text : Nat → Option Bytes) : FullTextDocument :=
  .ofTexts (index.propertyIds.filterMap fun pid => (text pid).map (Prod.mk (propertyName pid)))

/-- `BuildFullTextDocument`. An empty text is no field of the document. -/
def buildFullTextDocument (labels : List Nat) (properties : Table Nat SizedValue) : FullTextDocument :=
  if matchLabelIds index labels then textDocument propertyName index fun pid => nonemptyText (properties.get pid)
  else .ofTexts []

def Vertex.document (vertex : Vertex) : FullTextDocument :=
  buildFullTextDocument propertyName index vertex.labels vertex.scalars

inductive FullTextUpdate where
  | delete (vid : Nat)
  | add (vid : Nat) (document : FullTextDocument)
  deriving DecidableEq

def replaceDocument (vid : Nat) (old new : FullTextDocument) : List FullTextUpdate :=
  if old = new then []
  else (if old.isEmpty then [] else [.delete vid]) ++ if new.isEmpty then [] else [.add vid new]

/-- `CollectTouchedPropertyIds`. Records are compared as they are stored. -/
def collectTouchedPropertyIds (old new : Table Nat SizedValue) : List Nat :=
  let stored (properties : Table Nat SizedValue) (pid : Nat) : Option Bytes :=
    (properties.get pid).bind fun value => (serializeValue value.val).toOption
  (old.entries.map Prod.fst).filter (fun pid => !new.contains pid || stored old pid ≠ stored new pid) ++
    (new.entries.map Prod.fst).filter fun pid => !old.contains pid || stored old pid ≠ stored new pid

def IndexChange.effectiveTouched (change : IndexChange) : List Nat :=
  if change.touched.isEmpty then collectTouchedPropertyIds change.oldProperties change.newProperties
  else change.touched

/-- What `UpdateVertexIndexes` logs for one full-text index (`UpdateFullTextIndexes`). -/
def fullTextUpdates (vid : Nat) (change : IndexChange) : List FullTextUpdate :=
  let changed := labelsChanged change.oldLabels change.newLabels
  if !changed && change.effectiveTouched.isEmpty then []
  else if !matchLabelIds index change.oldLabels && !matchLabelIds index change.newLabels then []
  else if !changed && !matchPropertyIds index change.effectiveTouched then []
  else replaceDocument vid (buildFullTextDocument propertyName index change.oldLabels change.oldProperties)
    (buildFullTextDocument propertyName index change.newLabels change.newProperties)

end Updates

variable {pid : Nat}

section Documents

variable {propertyName : Nat → String} {index : FullTextIndex}

variable {text : Nat → Option Bytes} {labels new old touched : List Nat}
  {after before properties : Table Nat SizedValue} {change : IndexChange} {vid : Nat}

theorem textDocument_congr {other : Nat → Option Bytes} (same : ∀ pid ∈ index.propertyIds, text pid = other pid) :
    textDocument propertyName index text = textDocument propertyName index other := by
  rw [textDocument, textDocument, filterMap_congr]
  intro pid mem
  rw [same pid mem]

theorem build_congr {others : List Nat} {scalars : Table Nat SizedValue}
    (matched : matchLabelIds index labels = matchLabelIds index others)
    (same : ∀ pid ∈ index.propertyIds, nonemptyText (properties.get pid) = nonemptyText (scalars.get pid)) :
    buildFullTextDocument propertyName index labels properties =
      buildFullTextDocument propertyName index others scalars := by
  rw [buildFullTextDocument, buildFullTextDocument, matched, textDocument_congr same]

theorem build_none (missing : ∀ pid ∈ index.propertyIds, nonemptyText (properties.get pid) = none) :
    buildFullTextDocument propertyName index labels properties = .ofTexts [] := by
  have none : textDocument propertyName index (fun pid => nonemptyText (properties.get pid)) = .ofTexts [] := by
    rw [textDocument, filterMap_eq_nil_iff.mpr]
    intro pid mem
    rw [missing pid mem, map_none]
  rw [buildFullTextDocument, none, ite_self]

theorem matchLabelIds_of_not_changed {others : List Nat} (same : labelsChanged labels others = false) :
    matchLabelIds index labels = matchLabelIds index others := by
  simp only [labelsChanged, Bool.not_eq_false', Bool.and_eq_true, List.all_eq_true, contains_iff_mem] at same
  rw [Bool.eq_iff_iff]
  simp only [matchLabelIds, List.any_eq_true]
  constructor
  · rintro ⟨lid, mem, indexed⟩
    exact ⟨lid, same.1 lid mem, indexed⟩
  · rintro ⟨lid, mem, indexed⟩
    exact ⟨lid, same.2 lid mem, indexed⟩

@[simp] theorem replaceDocument_self (vid : Nat) (document : FullTextDocument) :
    replaceDocument vid document document = [] := by
  simp [replaceDocument]

theorem IndexChange.mem_effectiveTouched (touched : pid ∈ change.touched) :
    pid ∈ change.effectiveTouched := by
  rw [effectiveTouched, if_neg (by simpa using ne_nil_of_mem touched)]
  exact touched

def Concerned (index : FullTextIndex) (old new touched : List Nat) : Prop :=
  (matchLabelIds index old = true ∨ matchLabelIds index new = true) ∧
    (labelsChanged old new = true ∨ matchPropertyIds index touched = true)

theorem fullTextUpdates_of_concerned
    (concerned : Concerned index change.oldLabels change.newLabels change.effectiveTouched) :
    fullTextUpdates propertyName index vid change =
      replaceDocument vid (buildFullTextDocument propertyName index change.oldLabels change.oldProperties)
        (buildFullTextDocument propertyName index change.newLabels change.newProperties) := by
  obtain ⟨labelled, moved⟩ := concerned
  have some : labelsChanged change.oldLabels change.newLabels = true ∨ change.effectiveTouched ≠ [] := by
    rcases moved with changed | touched
    · exact .inl changed
    refine .inr fun nothing => ?_
    rw [nothing] at touched
    cases touched
  rw [fullTextUpdates]
  all_goals grind

theorem fullTextUpdates_of_not_concerned
    (unconcerned : ¬ Concerned index change.oldLabels change.newLabels change.effectiveTouched) :
    fullTextUpdates propertyName index vid change = [] := by
  unfold Concerned at unconcerned
  unfold fullTextUpdates
  grind

theorem build_eq_of_not_concerned (unconcerned : ¬ Concerned index old new touched)
    (unmoved : labelsChanged old new = false → ∀ pid ∈ index.propertyIds, pid ∉ touched →
      nonemptyText (before.get pid) = nonemptyText (after.get pid)) :
    buildFullTextDocument propertyName index old before = buildFullTextDocument propertyName index new after := by
  rcases not_and_or.mp unconcerned with unlabelled | still
  · rw [not_or, Bool.not_eq_true, Bool.not_eq_true] at unlabelled
    simp [buildFullTextDocument, unlabelled]
  · rw [not_or, Bool.not_eq_true, Bool.not_eq_true] at still
    apply build_congr (matchLabelIds_of_not_changed still.1)
    intro pid mem
    apply unmoved still.1 pid mem
    intro touched
    have := any_eq_false.mp still.2 pid touched
    simp [mem] at this

/-- The log replaces the document of the records before by the one of the records
after, if what was read agrees with them where the index is concerned and no other
text of the index moves. -/
theorem fullTextUpdates_eq
    (exact : Concerned index change.oldLabels change.newLabels change.effectiveTouched → ∀ pid ∈ index.propertyIds,
      nonemptyText (change.oldProperties.get pid) = nonemptyText (before.get pid) ∧
        nonemptyText (change.newProperties.get pid) = nonemptyText (after.get pid))
    (unmoved : labelsChanged change.oldLabels change.newLabels = false → ∀ pid ∈ index.propertyIds,
      pid ∉ change.effectiveTouched → nonemptyText (before.get pid) = nonemptyText (after.get pid)) :
    fullTextUpdates propertyName index vid change =
      replaceDocument vid (buildFullTextDocument propertyName index change.oldLabels before)
        (buildFullTextDocument propertyName index change.newLabels after) := by
  by_cases concerned : Concerned index change.oldLabels change.newLabels change.effectiveTouched
  · have read := exact concerned
    rw [fullTextUpdates_of_concerned concerned, build_congr rfl fun pid mem => (read pid mem).1,
      build_congr rfl fun pid mem => (read pid mem).2]
  · rw [fullTextUpdates_of_not_concerned concerned, build_eq_of_not_concerned concerned unmoved, replaceDocument_self]

theorem mem_collect_of_concerned {info : MetaInfo} (declared : index ∈ info.fullTextIndexes)
    (concerned : Concerned index old new touched) (mem : pid ∈ index.propertyIds) :
    pid ∈ collectVertexIndexPropertyIds info old new touched := by
  obtain ⟨labelled, moved⟩ := concerned
  unfold collectVertexIndexPropertyIds
  split
  next nothing =>
    rw [Bool.and_eq_true, Bool.not_eq_true'] at nothing
    rw [nothing.1, isEmpty_iff.mp nothing.2] at moved
    simp [matchPropertyIds] at moved
  · simp only [mem_append, mem_flatMap]
    refine .inl (.inr ⟨index, mem_filter.mpr ⟨declared, ?_⟩, mem⟩)
    rw [Bool.and_eq_true, Bool.or_eq_true, Bool.or_eq_true]
    exact ⟨labelled, moved⟩

/-- The same for a change that reads what the indexes need, and tells them nothing if
that is nothing. -/
theorem updates_of_required {info : MetaInfo} (declared : index ∈ info.fullTextIndexes)
    {required : List Nat} {oldProperties newProperties : Table Nat SizedValue}
    (needed : ∀ pid ∈ collectVertexIndexPropertyIds info old new touched, pid ∈ required)
    (moved : labelsChanged old new = false → touched ≠ [])
    (exact : ∀ pid ∈ required, nonemptyText (oldProperties.get pid) = nonemptyText (before.get pid) ∧
      nonemptyText (newProperties.get pid) = nonemptyText (after.get pid))
    (unmoved : labelsChanged old new = false → ∀ pid ∉ touched,
      nonemptyText (before.get pid) = nonemptyText (after.get pid)) :
    (if required.isEmpty then none else some (IndexChange.mk old new oldProperties newProperties touched)).elim []
        (fullTextUpdates propertyName index vid) =
      replaceDocument vid (buildFullTextDocument propertyName index old before)
        (buildFullTextDocument propertyName index new after) := by
  have effective : labelsChanged old new = false →
      IndexChange.effectiveTouched ⟨old, new, oldProperties, newProperties, touched⟩ = touched := by
    intro same
    rw [IndexChange.effectiveTouched, if_neg (by simpa using moved same)]
  split
  · -- Nothing is read only if the index is not concerned or has no properties.
    rename_i nothing
    rw [elim_none]
    by_cases concerned : Concerned index old new touched
    · have none : ∀ pid, pid ∉ index.propertyIds := by
        intro pid mem
        have := needed pid (mem_collect_of_concerned declared concerned mem)
        rw [isEmpty_iff.mp nothing] at this
        cases this
      rw [build_none fun pid mem => absurd mem (none pid), build_none fun pid mem => absurd mem (none pid),
        replaceDocument_self]
    · rw [build_eq_of_not_concerned concerned fun same pid _ => unmoved same pid, replaceDocument_self]
  · apply fullTextUpdates_eq
    · intro concerned pid mem
      apply exact pid (needed pid (mem_collect_of_concerned declared ⟨concerned.1, ?_⟩ mem))
      rcases Bool.eq_false_or_eq_true (labelsChanged old new) with changed | same
      · exact .inl changed
      · rw [effective same] at concerned
        exact concerned.2
    · intro same pid _ untouched
      rw [effective same] at untouched
      exact unmoved same pid untouched

end Documents

/-! ## Records of vector fields -/

/-- Vector records stand under fields of the labels, and a scalar record that is left
of such a field is a vector. -/
structure Vertex.Settled (rounding : Rounding) (info : MetaInfo) (vertex : Vertex) : Prop where
  placed : ∀ lid pid vector, vertex.vectors.lookup (lid, pid) = some vector → HasField info vertex.labels lid pid
  numeric : ∀ lid pid value, HasField info vertex.labels lid pid → vertex.scalars.get pid = some value →
    ∃ vector, rounding.Parses value.val vector

namespace Vertex.Settled

variable {rounding : Rounding} {info : MetaInfo} {vertex next : Vertex} {change : Option IndexChange}

theorem text_eq (settled : vertex.Settled rounding info) {lid : Nat} (has : HasField info vertex.labels lid pid) :
    nonemptyText (vertex.scalars.get pid) = none := by
  cases scalar : vertex.scalars.get pid with
  | none => rfl
  | some value =>
    obtain ⟨vector, dimensions, parsed⟩ := settled.numeric lid pid value has scalar
    obtain ⟨value, sized⟩ := value
    cases value with
    | list items => rfl
    | _ => cases parsed

section

variable (settled : vertex.Settled rounding info)
include settled

theorem writeProperties {values : Table Nat SizedValue}
    (done : vertex.writeProperties rounding info values = .ok next) : next.Settled rounding info := by
  obtain ⟨labels, scalars, vectors⟩ := writeProperties_spec done
  constructor
  · intro lid pid vector found
    rw [labels]
    rcases vectors lid pid vector found with ⟨has, -⟩ | ⟨-, old⟩
    · exact has
    · exact settled.placed lid pid vector old
  · intro lid pid value has found
    rw [labels] at has
    rw [scalars, if_neg] at found
    · exact settled.numeric lid pid value has found
    · intro scalarOnly
      exact isEmpty_vectorFields.mp scalarOnly lid has

theorem removeProperty (pid : Nat) : (vertex.removeProperty info pid).1.Settled rounding info := by
  obtain ⟨labels, scalars, vectors⟩ := removeProperty_spec info vertex pid
  constructor
  · intro lid other vector found
    rw [labels]
    exact settled.placed lid other vector (vectors lid other vector found).1
  · intro lid other value has found
    rw [labels] at has
    rw [scalars] at found
    split at found
    · cases found
    · exact settled.numeric lid other value has found

theorem removeAllProperty : (vertex.removeAllProperty info).1.Settled rounding info := by
  obtain ⟨labels, scalars, vectors⟩ := removeAllProperty_spec info vertex
  constructor
  · intro lid pid vector found
    exact settled.placed lid pid vector (vectors lid pid vector found).1
  · intro lid pid value has found
    cases found

theorem deleteLabels (labels : List Nat) :
    (vertex.deleteLabels info labels).1.Settled rounding info := by
  obtain ⟨remaining, scalars, vectors⟩ := deleteLabels_spec info vertex labels
  constructor
  · intro lid pid vector found
    obtain ⟨old, notRemoved⟩ := vectors lid pid vector found
    obtain ⟨labelled, isField⟩ := settled.placed lid pid vector old
    refine ⟨?_, isField⟩
    rw [remaining, mem_filter]
    refine ⟨labelled, ?_⟩
    by_contra removed
    exact notRemoved ⟨mem_filter.mpr ⟨labelled, by simpa using removed⟩, isField⟩
  · intro lid pid value has found
    rw [scalars] at found
    rw [remaining] at has
    exact settled.numeric lid pid value ⟨(mem_filter.mp has.1).1, has.2⟩ found

theorem addLabels {labels : List Nat}
    (done : vertex.addLabels rounding info labels = .ok (next, change)) : next.Settled rounding info := by
  obtain ⟨⟨added, grown⟩, scalars, vectors⟩ := addLabels_spec done
  constructor
  · intro lid pid vector found
    rcases vectors lid pid vector found with old | ⟨has, -⟩
    · obtain ⟨labelled, isField⟩ := settled.placed lid pid vector old
      rw [grown]
      exact ⟨mem_append_left _ labelled, isField⟩
    · exact has
  · intro lid pid value has found
    rw [scalars] at found
    unfold Vertex.addLabels at done
    split at done
    · cases done
      exact settled.numeric lid pid value has found
    · simp only [bind_eq_ok] at done
      obtain ⟨records, copied, done⟩ := done
      cases done
      rw [(Vertex.putVectors_keeps ..).1] at has
      obtain ⟨field, mem, -, rfl⟩ := mem_labelFields.mpr has
      cases loaded : ({ vertex with labels := vertex.labels ++ vertex.newLabels labels } : Vertex).loadVector info
          field.propertyId with
      | none => exact parses_of_copyToFields (by simp) copied mem found loaded
      | some vector =>
        -- The vector was stored under a label the vertex had, so the record was one of a field before.
        obtain ⟨other, -, stored⟩ := lookup_of_loadVector loaded
        exact settled.numeric other _ value (settled.placed _ _ _ stored) found

theorem perform {call : VertexCall}
    (done : vertex.perform rounding info call = .ok (next, change)) : next.Settled rounding info := by
  cases call with
  | setProperties values => exact settled.writeProperties (writeProperties_of_setProperties done)
  | removeProperty pid =>
    have same : vertex.removeProperty info pid = (next, change) := Except.ok.inj done
    have := settled.removeProperty pid
    rwa [same] at this
  | removeAllProperty =>
    have same : vertex.removeAllProperty info = (next, change) := Except.ok.inj done
    have := settled.removeAllProperty
    rwa [same] at this
  | addLabels labels => exact settled.addLabels done
  | deleteLabels labels =>
    have same : vertex.deleteLabels info labels = (next, change) := Except.ok.inj done
    have := settled.deleteLabels labels
    rwa [same] at this

end

end Vertex.Settled

section Changes

variable {propertyName : Nat → String} {rounding : Rounding} {info : MetaInfo} {index : FullTextIndex} {vid : Nat}
  {vertex next : Vertex} {change : Option IndexChange}

/-- The log of a change replaces the document of the vertex before by the one after. -/
def Replaces (propertyName : Nat → String) (index : FullTextIndex) (vid : Nat) (vertex next : Vertex)
    (change : Option IndexChange) : Prop :=
  change.elim [] (fullTextUpdates propertyName index vid) =
    replaceDocument vid (vertex.document propertyName index) (next.document propertyName index)

theorem Replaces.refl (vertex : Vertex) : Replaces propertyName index vid vertex vertex none := by
  simp [Replaces]

variable {values : Table Nat SizedValue} {labels : List Nat} {vectors : List ((Nat × Nat) × List (BitVec 64))}

theorem replaces_setProperties (declared : index ∈ info.fullTextIndexes) (settled : vertex.Settled rounding info)
    (done : vertex.setProperties rounding info values = .ok (next, change)) :
    Replaces propertyName index vid vertex next change := by
  obtain ⟨labels, scalars, -⟩ := writeProperties_spec (writeProperties_of_setProperties done)
  unfold setProperties at done
  split at done
  · cases done
    exact .refl vertex
  next given =>
    rw [bind_eq_ok] at done
    obtain ⟨written, -, done⟩ := done
    cases done
    rw [Replaces, document, document, labels]
    apply updates_of_required declared
    · exact fun pid mem => mem
    · intro _ nothing
      exact given (isEmpty_iff.mpr (map_eq_nil_iff.mp nothing))
    · intro pid required
      constructor
      · rw [get_loadSerialized, if_pos required]
      rw [get_filter_key, get_overlay, get_loadSerialized, if_pos required, scalars]
      by_cases scalarOnly : (vertex.vectorFields info pid).isEmpty
      · simp [scalarOnly]
      -- A vector field that is written has no text before and is hidden after.
      obtain ⟨field, mem⟩ := exists_mem_of_ne_nil _ (isEmpty_iff.not.mp scalarOnly)
      have noText := settled.text_eq (hasField_of_mem mem)
      by_cases written : values.contains pid
      · simp [scalarOnly, written, noText]
      · simp [scalarOnly, written]
    · intro _ pid untouched
      have missing : values.get pid = none := (get_eq_none_iff values).mpr untouched
      rw [scalars, missing, none_or, ite_self]

theorem labelsChanged_newLabels (added : (vertex.newLabels labels).isEmpty = false) :
    labelsChanged vertex.labels (vertex.labels ++ vertex.newLabels labels) = true := by
  obtain ⟨lid, mem⟩ := exists_mem_of_ne_nil _ (isEmpty_eq_false_iff.mp added)
  have new : lid ∉ vertex.labels := by simpa using (mem_filter.mp mem).2
  rw [labelsChanged, Bool.not_eq_true', Bool.and_eq_false_iff]
  right
  rw [List.all_eq_false]
  exact ⟨lid, mem_append_right _ mem, by simpa using new⟩

theorem replaces_addLabels (declared : index ∈ info.fullTextIndexes) (settled : vertex.Settled rounding info)
    (done : vertex.addLabels rounding info labels = .ok (next, change)) :
    Replaces propertyName index vid vertex next change := by
  have settledNext := settled.addLabels done
  unfold addLabels at done
  split at done
  · cases done
    exact .refl vertex
  next added =>
    have changed := labelsChanged_newLabels (by simpa using added)
    simp only [bind_eq_ok] at done
    obtain ⟨records, -, done⟩ := done
    cases done
    rw [Replaces, document, document, (putVectors_keeps ..).1, (putVectors_keeps ..).2]
    apply updates_of_required declared
    · exact fun pid mem => mem_append_left _ mem
    · intro same
      cases changed.symm.trans same
    · intro pid required
      constructor
      · rw [get_loadSerialized, if_pos required]
      rw [get_filter_key, get_loadSerialized]
      split
      · rfl
      -- The record of a field is hidden, and has no text.
      rename_i hidden
      obtain ⟨field, mem, rfl⟩ := List.mem_map.mp (by simpa using hidden)
      have has := mem_labelFields.mp ⟨field, mem, rfl, rfl⟩
      have noText := settledNext.text_eq (by rwa [(putVectors_keeps ..).1])
      rw [(putVectors_keeps ..).2] at noText
      exact noText.symm
    · intro same
      cases changed.symm.trans same

theorem replaces_deleteLabels (declared : index ∈ info.fullTextIndexes)
    (done : vertex.deleteLabels info labels = (next, change)) :
    Replaces propertyName index vid vertex next change := by
  unfold deleteLabels at done
  simp only at done
  split at done
  · cases done
    exact .refl vertex
  next removed =>
    cases done
    have changed : labelsChanged vertex.labels (vertex.labels.filter fun lid => !labels.contains lid) = true := by
      obtain ⟨lid, mem⟩ := exists_mem_of_ne_nil _ (List.isEmpty_iff.not.mp removed)
      obtain ⟨labelled, gone⟩ := mem_filter.mp mem
      rw [labelsChanged, Bool.not_eq_true', Bool.and_eq_false_iff]
      left
      rw [List.all_eq_false]
      exact ⟨lid, labelled, by simpa using fun _ => gone⟩
    apply updates_of_required declared
    · exact fun pid mem => mem
    · intro same
      cases changed.symm.trans same
    · intro pid required
      rw [get_loadSerialized, if_pos required]
      exact ⟨rfl, rfl⟩
    · intro same
      cases changed.symm.trans same

theorem document_erase (noText : nonemptyText (vertex.scalars.get pid) = none) :
    Vertex.document propertyName index ⟨vertex.labels, vertex.scalars.erase pid, vectors⟩ =
      vertex.document propertyName index := by
  apply build_congr rfl
  intro other _
  rw [get_erase]
  split
  next same =>
    rw [same, noText]
    rfl
  · rfl

theorem replaces_removeField (settled : vertex.Settled rounding info)
    (fields : (!(vertex.vectorFields info pid).isEmpty) = true) :
    Replaces propertyName index vid vertex ⟨vertex.labels, vertex.scalars.erase pid, vectors⟩
      (some ⟨vertex.labels, vertex.labels, vertex.loadSerialized [pid], .empty, [pid]⟩) := by
  obtain ⟨field, mem⟩ := exists_mem_of_ne_nil (vertex.vectorFields info pid) (by simpa using fields)
  have noText := settled.text_eq (hasField_of_mem mem)
  have nothing : ∀ other, nonemptyText ((vertex.loadSerialized [pid]).get other) = none := by
    intro other
    rw [get_loadSerialized]
    split
    next same =>
      rw [mem_singleton.mp same, noText]
    · rfl
  rw [Replaces, document_erase noText, replaceDocument_self, elim_some,
    fullTextUpdates_eq (fun _ _ _ => ⟨rfl, rfl⟩) fun _ other _ _ => nothing other,
    build_none fun other _ => nothing other, build_none fun _ _ => rfl, replaceDocument_self]

theorem replaces_removeProperty (declared : index ∈ info.fullTextIndexes) (settled : vertex.Settled rounding info)
    (done : vertex.removeProperty info pid = (next, change)) :
    Replaces propertyName index vid vertex next change := by
  let required := collectVertexIndexPropertyIds info vertex.labels vertex.labels [pid]
  let properties := vertex.loadSerialized required
  have scalar : Replaces propertyName index vid vertex { vertex with scalars := vertex.scalars.erase pid }
      (if required.isEmpty then none
        else some ⟨vertex.labels, vertex.labels, properties, properties.erase pid, [pid]⟩) := by
    apply updates_of_required declared
    · exact fun pid mem => mem
    · simp
    · intro other needed
      rw [get_erase, get_erase, get_loadSerialized, if_pos needed]
      exact ⟨rfl, rfl⟩
    · intro _ other untouched
      rw [get_erase, if_neg (by simpa using untouched)]
  unfold removeProperty at done
  simp only at done
  split at done
  next fields =>
    split at done
    · cases done
      exact .refl vertex
    · cases done
      exact replaces_removeField settled fields
  · split at done
    next nothing =>
      rw [if_pos nothing] at scalar
      split at done
      · cases done
        exact scalar
      · cases done
        exact .refl vertex
    next needed =>
      rw [if_neg needed] at scalar
      split at done
      · cases done
        exact scalar
      · cases done
        exact .refl vertex

theorem updates_of_all {stored : List Nat} : fullTextUpdates propertyName index vid
        ⟨vertex.labels, labels, vertex.scalars, .empty, vertex.scalars.entries.map Prod.fst ++ stored⟩ =
      replaceDocument vid (vertex.document propertyName index)
        (buildFullTextDocument propertyName index labels .empty) := by
  apply fullTextUpdates_eq
  · exact fun _ _ _ => ⟨rfl, rfl⟩
  intro _ pid _ untouched
  have missing : vertex.scalars.get pid = none := by
    rw [get_eq_none_iff]
    intro mem
    exact untouched (IndexChange.mem_effectiveTouched (mem_append_left _ mem))
  rw [missing, get_empty]

theorem replaces_perform (declared : index ∈ info.fullTextIndexes) (settled : vertex.Settled rounding info)
    {call : VertexCall} (done : vertex.perform rounding info call = .ok (next, change)) :
    Replaces propertyName index vid vertex next change := by
  cases call with
  | setProperties values => exact replaces_setProperties declared settled done
  | removeProperty pid => exact replaces_removeProperty declared settled (Except.ok.inj done)
  | removeAllProperty =>
    cases done
    exact updates_of_all
  | addLabels labels => exact replaces_addLabels declared settled done
  | deleteLabels labels => exact replaces_deleteLabels declared (Except.ok.inj done)

theorem updates_create (done : Vertex.create rounding info labels values = .ok (next, change)) :
    change.elim [] (fullTextUpdates propertyName index vid) =
      replaceDocument vid (.ofTexts []) (next.document propertyName index) := by
  rw [Vertex.create, bind_eq_ok] at done
  obtain ⟨written, wrote, done⟩ := done
  cases done
  obtain ⟨labelled, scalars, -⟩ := writeProperties_spec wrote
  rw [document, labelled]
  apply fullTextUpdates_eq
  · exact fun _ _ _ => ⟨rfl, rfl⟩
  intro _ pid _ untouched
  have missing : values.get pid = none := by
    rw [get_eq_none_iff]
    intro mem
    exact untouched (IndexChange.mem_effectiveTouched mem)
  rw [scalars, missing, none_or, ite_self]

end Changes

end RocksGraph.Storage
