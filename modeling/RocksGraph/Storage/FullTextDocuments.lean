import RocksGraph.Storage.FullTextUpdates

/-! The documents a full-text index keeps for the vertices of a graph (`index.cc`).

The index applies the log of the changes. One that is built from scratch scans its
labels and reads the records of the vertices itself. Both fail for a text that is
not valid UTF-8: the log then does not get past it. -/

set_option autoImplicit false

namespace RocksGraph.Storage

open Foundation Catalog List Option

/-- Which property names and texts are valid UTF-8: parsing a protobuf `string` asks for it, and `rust::String` does. -/
structure Utf8 where
  name : String → Bool
  text : Bytes → Bool
  text_nil : text [] = true

def FullTextDocument.readable (utf8 : Utf8) (document : FullTextDocument) : Bool :=
  document.fields.all utf8.name && document.values.all utf8.text

def FullTextUpdate.readable (utf8 : Utf8) : FullTextUpdate → Bool
  | .delete _ => true
  | .add _ document => document.readable utf8

section Index

variable (utf8 : Utf8) (propertyName : Nat → String) (index : FullTextIndex)

/-- A delete removes all documents of the vertex and an add inserts one (`ft_apply_updates`). -/
def applyUpdate (content : List (Nat × FullTextDocument)) : FullTextUpdate → List (Nat × FullTextDocument)
  | .delete vid => content.filter fun entry => entry.1 ≠ vid
  | .add vid document => content ++ [(vid, document)]

/-- One record in `ApplyWAL`, which throws where it does not parse, whenever it is called. -/
def consumeRecord (content : List (Nat × FullTextDocument)) (update : FullTextUpdate) :
    Option (List (Nat × FullTextDocument)) :=
  if update.readable utf8 then some (applyUpdate content update) else none

def documentsOf (vid : Nat) (content : List (Nat × FullTextDocument)) : List FullTextDocument :=
  (content.filter fun entry => entry.1 = vid).map Prod.snd

variable (vertices : Table Nat Vertex)

def scannedVids (lid : Nat) (loaded : List Nat) : List Nat :=
  (vertices.entries.filter fun entry => entry.2.labels.contains lid &&
    !(decide (1 < index.labelIds.length) && loaded.contains entry.1)).map Prod.fst

def loadDocument (vid : Nat) : FullTextDocument :=
  textDocument propertyName index fun pid => stringValue ((vertices.get vid).bind fun vertex => vertex.scalars.get pid)

def loadLabels (vertices : Table Nat Vertex) : List Nat → List Nat → List (Nat × FullTextDocument)
  | [], _ => []
  | lid :: rest, loaded =>
    let vids := scannedVids index vertices lid loaded
    (vids.filter fun vid => !(loadDocument propertyName index vertices vid).isEmpty).map
        (fun vid => (vid, loadDocument propertyName index vertices vid)) ++
      loadLabels vertices rest (loaded ++ vids)

/-- `VertexFullTextIndex::Load` into an index without documents. `AddDocument` throws for a text that is not valid. -/
def load : Option (List (Nat × FullTextDocument)) :=
  let documents := loadLabels propertyName index vertices index.labelIds []
  if documents.all (·.2.readable utf8) then some documents else none

end Index

structure DocumentedGraph where
  vertices : Table Nat Vertex
  nextVid : Nat
  wal : List FullTextUpdate

inductive GraphCall where
  | create (labels : List Nat) (values : Table Nat SizedValue)
  | change (vid : Nat) (call : VertexCall)
  | delete (vid : Nat)

namespace DocumentedGraph

variable (propertyName : Nat → String) (rounding : Rounding) (info : MetaInfo) (index : FullTextIndex)

def empty : DocumentedGraph := ⟨.empty, 0, []⟩

variable (graph : DocumentedGraph)

def record (vid : Nat) (vertex : Option Vertex) (change : Option IndexChange) :
    DocumentedGraph :=
  { graph with
    vertices := graph.vertices.assign vid vertex
    wal := graph.wal ++ change.elim [] (fullTextUpdates propertyName index vid) }

/-- A call that throws leaves the transaction to be rolled back and is no step. -/
def step : GraphCall → Option DocumentedGraph
  | .create labels values =>
    (Vertex.create rounding info labels values).toOption.map fun done =>
      { graph.record propertyName index graph.nextVid (some done.1) done.2 with nextVid := graph.nextVid + 1 }
  | .change vid call =>
    (graph.vertices.get vid).bind fun vertex =>
      (vertex.perform rounding info call).toOption.map fun done =>
        graph.record propertyName index vid (some done.1) done.2
  | .delete vid =>
    (graph.vertices.get vid).map fun vertex => graph.record propertyName index vid none (some (vertex.delete info))

/-- What the index holds when `ApplyWAL` has applied the whole log. -/
def content (utf8 : Utf8) : Option (List (Nat × FullTextDocument)) := graph.wal.foldlM (consumeRecord utf8) []

def applied : List (Nat × FullTextDocument) := graph.wal.foldl applyUpdate []

def document (graph : DocumentedGraph) (vid : Nat) : FullTextDocument :=
  (graph.vertices.get vid).elim (.ofTexts []) (Vertex.document propertyName index)

end DocumentedGraph

variable {vid : Nat}

section Content

variable {content : List (Nat × FullTextDocument)}

@[simp] theorem documentsOf_delete (vid other : Nat) :
    documentsOf other (applyUpdate content (.delete vid)) = if other = vid then [] else documentsOf other content := by
  rw [applyUpdate, documentsOf, List.filter_filter]
  split
  next same =>
    subst same
    simp
  · congr 1
    apply filter_congr
    grind

@[simp] theorem documentsOf_add (vid other : Nat) (document : FullTextDocument) :
    documentsOf other (applyUpdate content (.add vid document)) =
      documentsOf other content ++ if other = vid then [document] else [] := by
  rw [applyUpdate, documentsOf, filter_append, map_append]
  congr 1
  by_cases same : vid = other <;> simp [same, eq_comm]

theorem documentsOf_replace {old : FullTextDocument} (kept : documentsOf vid content = old.kept)
    (new : FullTextDocument) (other : Nat) :
    documentsOf other ((replaceDocument vid old new).foldl applyUpdate content) =
      if other = vid then new.kept else documentsOf other content := by
  unfold replaceDocument
  split
  next same =>
    subst same
    by_cases here : other = vid <;> simp [here, kept]
  · by_cases here : other = vid
    · cases hold : old.isEmpty <;> cases hnew : new.isEmpty <;> simp_all [FullTextDocument.kept]
    · cases hold : old.isEmpty <;> cases hnew : new.isEmpty <;> simp [here]

end Content

section Load

variable {propertyName : Nat → String} {index : FullTextIndex} {vertices : Table Nat Vertex}

theorem mem_documentsOf {document : FullTextDocument} {content : List (Nat × FullTextDocument)} :
    document ∈ documentsOf vid content ↔ (vid, document) ∈ content := by
  simp [documentsOf]

theorem documentsOf_append (vid : Nat) (first second : List (Nat × FullTextDocument)) :
    documentsOf vid (first ++ second) = documentsOf vid first ++ documentsOf vid second := by
  simp [documentsOf]

theorem mem_scannedVids {lid : Nat} {loaded : List Nat} : vid ∈ scannedVids index vertices lid loaded ↔
    (∃ vertex, vertices.get vid = some vertex ∧ lid ∈ vertex.labels) ∧
      ¬ (1 < index.labelIds.length ∧ vid ∈ loaded) := by
  simp only [scannedVids, List.mem_map, mem_filter, Prod.exists, ← Table.get_eq_some_iff]
  grind

theorem nodup_scannedVids (lid : Nat) (loaded : List Nat) : (scannedVids index vertices lid loaded).Nodup := by
  apply pairwise_map.mpr
  exact (vertices.sorted.filter _).imp fun below => ne_of_lt below

theorem documentsOf_scan {vids : List Nat} (nodup : vids.Nodup) (document : Nat → FullTextDocument) (vid : Nat) :
    documentsOf vid ((vids.filter fun vid => !(document vid).isEmpty).map fun vid => (vid, document vid)) =
      if vid ∈ vids then (document vid).kept else [] := by
  induction vids with
  | nil => rfl
  | cons head rest ih =>
    obtain ⟨once, nodupRest⟩ := nodup_cons.mp nodup
    have others := ih nodupRest
    have headOnly : documentsOf vid (map (fun vid => (vid, document vid))
        (filter (fun vid => !(document vid).isEmpty) [head])) = if vid = head then (document vid).kept else [] := by
      by_cases here : vid = head
      · subst here
        cases empty : (document vid).isEmpty <;> simp [documentsOf, FullTextDocument.kept, empty]
      · cases empty : (document head).isEmpty <;> simp [documentsOf, empty, here, Ne.symm here]
    rw [← singleton_append, filter_append, map_append, documentsOf_append, others, headOnly]
    by_cases here : vid = head
    · simp [here, once]
    · simp [here]

theorem documentsOf_loadLabels (several : 1 < index.labelIds.length) (lids loaded : List Nat) (vid : Nat) :
    documentsOf vid (loadLabels propertyName index vertices lids loaded) =
      if (∃ vertex, vertices.get vid = some vertex ∧ ∃ lid ∈ lids, lid ∈ vertex.labels) ∧ vid ∉ loaded then
        (loadDocument propertyName index vertices vid).kept else [] := by
  induction lids generalizing loaded with
  | nil => simp [loadLabels, documentsOf]
  | cons lid rest ih =>
    rw [loadLabels, documentsOf_append, documentsOf_scan (nodup_scannedVids lid loaded), ih]
    by_cases now : vid ∈ scannedVids index vertices lid loaded
    · obtain ⟨⟨vertex, found, labelled⟩, new⟩ := mem_scannedVids.mp now
      have unloaded : vid ∉ loaded := fun mem => new ⟨several, mem⟩
      simp [now, found, labelled, unloaded]
    · simp only [now, mem_append]
      by_cases before : vid ∈ loaded
      · simp [before]
      have unlabelled : ∀ vertex, vertices.get vid = some vertex → lid ∉ vertex.labels := by
        intro vertex found labelled
        exact now (mem_scannedVids.mpr ⟨⟨vertex, found, labelled⟩, fun loadedBefore => before loadedBefore.2⟩)
      cases found : vertices.get vid with
      | none => simp
      | some vertex => simp [unlabelled vertex found]

theorem documentsOf_allLabels (vid : Nat) :
    documentsOf vid (loadLabels propertyName index vertices index.labelIds []) = (vertices.get vid).elim [] fun vertex =>
      if matchLabelIds index vertex.labels then (loadDocument propertyName index vertices vid).kept else [] := by
  have scans : documentsOf vid (loadLabels propertyName index vertices index.labelIds []) =
      if ∃ vertex, vertices.get vid = some vertex ∧ ∃ lid ∈ index.labelIds, lid ∈ vertex.labels then
        (loadDocument propertyName index vertices vid).kept else [] := by
    by_cases several : 1 < index.labelIds.length
    · simp [documentsOf_loadLabels several]
    -- With one label there is one scan.
    match ids : index.labelIds with
    | [] => simp [loadLabels, documentsOf]
    | [lid] =>
      rw [loadLabels, documentsOf_append, documentsOf_scan (nodup_scannedVids lid [])]
      simp [loadLabels, documentsOf, mem_scannedVids]
    | first :: second :: rest =>
      rw [ids] at several
      simp at several
  rw [scans]
  cases vertices.get vid with
  | none => simp
  | some vertex => simp [matchLabelIds, and_comm]

end Load

namespace DocumentedGraph

variable {propertyName : Nat → String} {rounding : Rounding} {info : MetaInfo} {index : FullTextIndex}
  {graph next : DocumentedGraph}

structure Consistent (propertyName : Nat → String) (rounding : Rounding) (info : MetaInfo) (index : FullTextIndex)
    (graph : DocumentedGraph) : Prop where
  settled : ∀ vid vertex, graph.vertices.get vid = some vertex → vertex.Settled rounding info
  fresh : ∀ vid, graph.nextVid ≤ vid → graph.vertices.get vid = none
  current : ∀ vid, documentsOf vid graph.applied = (graph.document propertyName index vid).kept

theorem Consistent.record (consistent : graph.Consistent propertyName rounding info index)
    {vertex : Option Vertex} {change : Option IndexChange}
    (settled : ∀ next, vertex = some next → next.Settled rounding info)
    (known : vid < graph.nextVid) (told : change.elim [] (fullTextUpdates propertyName index vid) =
      replaceDocument vid (graph.document propertyName index vid)
        (vertex.elim (.ofTexts []) (Vertex.document propertyName index))) :
    (graph.record propertyName index vid vertex change).Consistent propertyName rounding info index := by
  have found : ∀ other, (graph.record propertyName index vid vertex change).vertices.get other =
      if other = vid then vertex else graph.vertices.get other := Table.get_assign _ _ _
  constructor
  · intro other next here
    rw [found] at here
    split at here
    · exact settled next here
    · exact consistent.settled other next here
  · intro other beyond
    have differs : other ≠ vid := by
      rintro rfl
      exact absurd known (not_lt.mpr beyond)
    rw [found, if_neg differs, consistent.fresh other beyond]
  · intro other
    have grown : (graph.record propertyName index vid vertex change).applied =
        (replaceDocument vid (graph.document propertyName index vid)
          (vertex.elim (.ofTexts []) (Vertex.document propertyName index))).foldl applyUpdate graph.applied := by
      rw [applied, DocumentedGraph.record, foldl_append, told]
      rfl
    rw [grown, documentsOf_replace (consistent.current vid), DocumentedGraph.document, found]
    split
    · rfl
    · exact consistent.current other

theorem Consistent.known (consistent : graph.Consistent propertyName rounding info index) {vertex : Vertex}
    (found : graph.vertices.get vid = some vertex) : vid < graph.nextVid := by
  by_contra beyond
  rw [consistent.fresh vid (not_lt.mp beyond)] at found
  cases found

theorem Consistent.step (declared : index ∈ info.fullTextIndexes)
    (consistent : graph.Consistent propertyName rounding info index) {call : GraphCall}
    (taken : graph.step propertyName rounding info index call = some next) :
    next.Consistent propertyName rounding info index := by
  cases call with
  | create labels values =>
    obtain ⟨⟨vertex, change⟩, done, rfl⟩ := map_eq_some_iff.mp taken
    rw [toOption_eq_some] at done
    -- The id is taken before the records are written.
    have numbered : Consistent propertyName rounding info index { graph with nextVid := graph.nextVid + 1 } :=
      ⟨consistent.settled, fun vid beyond => consistent.fresh vid (Nat.le_of_succ_le beyond), consistent.current⟩
    have unknown : document propertyName index { graph with nextVid := graph.nextVid + 1 } graph.nextVid = .ofTexts [] := by
      rw [DocumentedGraph.document, consistent.fresh _ le_rfl, elim_none]
    show Consistent propertyName rounding info index (DocumentedGraph.record propertyName index
      { graph with nextVid := graph.nextVid + 1 } graph.nextVid (some vertex) change)
    apply numbered.record
    · rintro _ ⟨⟩
      rw [Vertex.create, bind_eq_ok] at done
      obtain ⟨written, wrote, done⟩ := done
      cases done
      have bare : Vertex.Settled rounding info ⟨labels, .empty, []⟩ := by
        constructor
        · rintro _ _ _ ⟨⟩
        · rintro _ _ _ _ ⟨⟩
      exact bare.writeProperties wrote
    · exact Nat.lt_succ_self _
    · rw [updates_create done, unknown, elim_some]
  | change vid call =>
    obtain ⟨vertex, found, taken⟩ := bind_eq_some_iff.mp taken
    obtain ⟨⟨changed, change⟩, done, rfl⟩ := map_eq_some_iff.mp taken
    rw [toOption_eq_some] at done
    have settled := consistent.settled vid vertex found
    apply consistent.record
    · rintro _ ⟨⟩
      exact settled.perform done
    · exact consistent.known found
    · rw [DocumentedGraph.document, found]
      exact replaces_perform declared settled done
  | delete vid =>
    obtain ⟨vertex, found, rfl⟩ := map_eq_some_iff.mp taken
    apply consistent.record
    · rintro _ ⟨⟩
    · exact consistent.known found
    · rw [DocumentedGraph.document, found]
      exact updates_of_all

def noEmptyText (index : FullTextIndex) (graph : DocumentedGraph) (vid : Nat) : Prop :=
  ∀ vertex, graph.vertices.get vid = some vertex → matchLabelIds index vertex.labels = true →
    ∀ pid ∈ index.propertyIds, stringValue (vertex.scalars.get pid) ≠ some []

theorem nonemptyText_eq_stringValue {value : Option SizedValue} (nonempty : stringValue value ≠ some []) :
    nonemptyText value = stringValue value := by
  rw [nonemptyText]
  generalize stringValue value = text at nonempty
  cases text with
  | none => rfl
  | some text =>
    cases text with
    | nil => exact absurd rfl nonempty
    | cons first rest => rfl

theorem nonemptyText_ne_nil (value : Option SizedValue) : nonemptyText value ≠ some [] := by
  rw [nonemptyText]
  intro found
  have := (filter_eq_some_iff.mp found).2
  simp at this

theorem mem_textDocument_values {text : Nat → Option Bytes} {value : Bytes} :
    value ∈ (textDocument propertyName index text).values ↔ ∃ pid ∈ index.propertyIds, text pid = some value := by
  simp [textDocument, FullTextDocument.ofTexts]

theorem mem_textDocument_fields {text : Nat → Option Bytes} {field : String}
    (mem : field ∈ (textDocument propertyName index text).fields) : ∃ pid ∈ index.propertyIds, field = propertyName pid := by
  obtain ⟨⟨_, value⟩, inside, rfl⟩ := List.mem_map.mp mem
  obtain ⟨pid, indexed, here⟩ := mem_filterMap.mp inside
  obtain ⟨_, -, same⟩ := map_eq_some_iff.mp here
  exact ⟨pid, indexed, (congrArg Prod.fst same).symm⟩

theorem flatMap_values_kept (text : Nat → Option Bytes) :
    (textDocument propertyName index text).kept.flatMap FullTextDocument.values =
      (textDocument propertyName index text).values := by
  rw [textDocument]
  generalize index.propertyIds.filterMap _ = texts
  cases texts <;> simp [FullTextDocument.kept, FullTextDocument.isEmpty, FullTextDocument.ofTexts]

/-- `Load` adds the document of the log just where no indexed text is empty. -/
theorem documentsOf_allLabels_iff :
    documentsOf vid (loadLabels propertyName index graph.vertices index.labelIds []) =
      (graph.document propertyName index vid).kept ↔ graph.noEmptyText index vid := by
  rw [documentsOf_allLabels, document]
  unfold noEmptyText
  cases found : graph.vertices.get vid with
  | none => simp [FullTextDocument.kept, FullTextDocument.isEmpty, FullTextDocument.ofTexts]
  | some vertex =>
    rw [elim_some, elim_some, Vertex.document, buildFullTextDocument]
    split
    next matched =>
      rw [loadDocument, found]
      constructor
      · rintro same _ ⟨⟩ - pid mem empty
        -- the empty text is a value of the one document and of the other one it cannot be
        have inside : [] ∈ (textDocument propertyName index fun pid => stringValue (vertex.scalars.get pid)).values :=
          mem_textDocument_values.mpr ⟨pid, mem, empty⟩
        have kept := congrArg (·.flatMap FullTextDocument.values) same
        simp only [flatMap_values_kept, bind_some] at kept
        rw [kept] at inside
        obtain ⟨other, -, none⟩ := mem_textDocument_values.mp inside
        exact nonemptyText_ne_nil _ none
      · intro noEmpty
        congr 1
        apply textDocument_congr
        intro pid mem
        exact (nonemptyText_eq_stringValue (noEmpty vertex rfl matched pid mem)).symm
    next unmatched => simp [FullTextDocument.kept, FullTextDocument.isEmpty, FullTextDocument.ofTexts, unmatched]

theorem foldlM_consumeRecord (utf8 : Utf8) (wal : List FullTextUpdate) (content : List (Nat × FullTextDocument)) :
    wal.foldlM (consumeRecord utf8) content =
      if wal.all (·.readable utf8) then some (wal.foldl applyUpdate content) else none := by
  induction wal generalizing content with
  | nil => rfl
  | cons update rest ih =>
    rw [foldlM_cons, consumeRecord, all_cons]
    cases update.readable utf8 with
    | true => simpa using ih _
    | false => rfl

theorem add_mem_of_applied {wal : List FullTextUpdate} {content : List (Nat × FullTextDocument)}
    {entry : Nat × FullTextDocument} (mem : entry ∈ wal.foldl applyUpdate content) :
    entry ∈ content ∨ .add entry.1 entry.2 ∈ wal := by
  induction wal generalizing content with
  | nil => exact .inl mem
  | cons update rest ih =>
    rcases ih mem with before | later
    · cases update with
      | delete vid => exact .inl (mem_of_mem_filter before)
      | add vid document =>
        rcases mem_append.mp before with old | new
        · exact .inl old
        · rw [mem_singleton.mp new]
          exact .inr mem_cons_self
    · exact .inr (mem_cons_of_mem _ later)

theorem Consistent.readable_of_kept {utf8 : Utf8} (consistent : graph.Consistent propertyName rounding info index)
    (vid : Nat) (readable : graph.wal.all (·.readable utf8)) {value : Bytes}
    (mem : value ∈ (graph.document propertyName index vid).kept.flatMap FullTextDocument.values) : utf8.text value := by
  rw [← consistent.current] at mem
  obtain ⟨document, kept, inside⟩ := mem_flatMap.mp mem
  rcases add_mem_of_applied (mem_documentsOf.mp kept) with old | logged
  · cases old
  · have valid := List.all_eq_true.mp readable _ logged
    rw [FullTextUpdate.readable, FullTextDocument.readable, Bool.and_eq_true] at valid
    exact List.all_eq_true.mp valid.2 value inside

/-- What the log has brought into the index is valid, so that `Load` can read it too. -/
theorem Consistent.readable_loadLabels {utf8 : Utf8} (consistent : graph.Consistent propertyName rounding info index)
    (named : ∀ pid ∈ index.propertyIds, utf8.name (propertyName pid)) (readable : graph.wal.all (·.readable utf8)) :
    (loadLabels propertyName index graph.vertices index.labelIds []).all (·.2.readable utf8) := by
  refine List.all_eq_true.mpr fun ⟨vid, document⟩ mem => ?_
  rw [← mem_documentsOf, documentsOf_allLabels] at mem
  cases found : graph.vertices.get vid with
  | none =>
    rw [found] at mem
    cases mem
  | some vertex =>
    rw [found, elim_some] at mem
    split at mem
    next matched =>
      obtain rfl : document = loadDocument propertyName index graph.vertices vid := by
        unfold FullTextDocument.kept at mem
        split at mem
        · cases mem
        · exact mem_singleton.mp mem
      rw [FullTextDocument.readable, Bool.and_eq_true, List.all_eq_true, List.all_eq_true]
      refine ⟨fun field inside => ?_, fun value inside => ?_⟩
      · obtain ⟨pid, indexed, rfl⟩ := mem_textDocument_fields inside
        exact named pid indexed
      · obtain ⟨pid, indexed, text⟩ := mem_textDocument_values.mp inside
        cases value with
        | nil => exact utf8.text_nil
        | cons first rest =>
          rw [found, bind_some] at text
          apply consistent.readable_of_kept vid readable
          rw [DocumentedGraph.document, found, elim_some, Vertex.document, buildFullTextDocument, if_pos matched,
            flatMap_values_kept]
          exact mem_textDocument_values.mpr ⟨pid, indexed, by rw [nonemptyText, text]; rfl⟩
    · cases mem

/-- In every sequence of calls and for every full-text index, `ApplyWAL` gets through the log just when all documents in
it are valid UTF-8, and then leaves for each vertex the document of its current labels and properties. An index that is
built from scratch has the same one just when no indexed property of the vertex is the empty text. -/
theorem documents_current (utf8 : Utf8) (declared : index ∈ info.fullTextIndexes)
    (named : ∀ pid ∈ index.propertyIds, utf8.name (propertyName pid)) {calls : List GraphCall}
    (run : Runs (step propertyName rounding info index) anyAction empty calls graph) :
    ((graph.content utf8).isSome ↔ ∀ update ∈ graph.wal, update.readable utf8) ∧
      ∀ content, graph.content utf8 = some content → ∃ loaded, load utf8 propertyName index graph.vertices = some loaded ∧
        ∀ vid, documentsOf vid content = (graph.document propertyName index vid).kept ∧
          (documentsOf vid loaded = documentsOf vid content ↔ graph.noEmptyText index vid) := by
  have consistent : graph.Consistent propertyName rounding info index := by
    apply run.invariant (Consistent propertyName rounding info index)
    · constructor
      · intro vid vertex found
        cases found
      · intro vid _
        rfl
      · intro vid
        rfl
    · intro state call next consistent _ taken
      exact consistent.step declared taken
  rw [content, foldlM_consumeRecord]
  split
  next readable =>
    refine ⟨iff_of_true rfl (List.all_eq_true.mp readable), ?_⟩
    rintro _ ⟨⟩
    refine ⟨_, if_pos (consistent.readable_loadLabels named readable), fun vid => ⟨consistent.current vid, ?_⟩⟩
    rw [← applied, consistent.current vid]
    exact documentsOf_allLabels_iff
  next unreadable => exact ⟨iff_of_false nofun (mt List.all_eq_true.mpr unreadable), nofun⟩

namespace Example

/-- Titles and bodies (properties 2 and 4) of items and notes (labels 1 and 3). -/
def texts : FullTextIndex := ⟨"texts", ["Item", "Note"], ["title", "body"], [1, 3], [2, 4], 1, .ready⟩

/-- Property 2 is a vector field of label 5. -/
def catalog : MetaInfo :=
  { MetaInfo.empty with
    vectorFields := [⟨"Embedded", 5, "title", 2, 1⟩]
    fullTextIndexes := [texts] }

def names (pid : Nat) : String := if pid = 2 then "title" else "body"

def ascii : Utf8 := ⟨fun _ => true, fun text => text.all (· < 128), rfl⟩

def text (byte : UInt8) : SizedValue := ⟨.string [byte], rfl⟩

end Example

open Example in
/-- Labels and texts come and go, and a text moves to a property that is indexed still. -/
theorem documents_current_relabelled : ∃ calls graph content loaded,
    Runs (step names .exact catalog texts) anyAction empty calls graph ∧ graph.content ascii = some content ∧
    load ascii names texts graph.vertices = some loaded ∧ documentsOf 0 content = [⟨["title", "body"], [[97], [99]]⟩] ∧
    documentsOf 0 loaded = documentsOf 0 content := by
  let calls : List GraphCall :=
    [.create [1] (Table.empty.put 2 (text 97)), .change 0 (.addLabels [3]),
      .change 0 (.setProperties (Table.empty.put 4 (text 98))), .change 0 (.deleteLabels [1]),
      .change 0 (.setProperties (Table.empty.put 4 (text 99)))]
  let observe (graph : DocumentedGraph) := ((graph.content ascii).map (documentsOf 0),
    (graph.vertices.get 0).map fun vertex => texts.propertyIds.map fun pid => stringValue (vertex.scalars.get pid))
  have computed : (execute (step names .exact catalog texts) anyAction empty calls).map observe =
      some (some [⟨["title", "body"], [[97], [99]]⟩], some [some [97], some [99]]) := by decide +kernel
  obtain ⟨graph, executed, observed⟩ := map_eq_some_iff.mp computed
  have run := runs_of_execute executed
  obtain ⟨content, applied, documents⟩ := map_eq_some_iff.mp (congrArg Prod.fst observed)
  have noEmpty : graph.noEmptyText texts 0 := by
    intro vertex found _ pid mem
    have values : texts.propertyIds.map (fun pid => stringValue (vertex.scalars.get pid)) = [some [97], some [99]] := by
      simpa [observe, found] using congrArg Prod.snd observed
    have value := mem_map_of_mem (f := fun pid => stringValue (vertex.scalars.get pid)) mem
    rw [values] at value
    grind
  have declared : texts ∈ catalog.fullTextIndexes := mem_singleton.mpr rfl
  obtain ⟨loaded, built, each⟩ := (documents_current ascii declared (fun _ _ => rfl) run).2 content applied
  exact ⟨calls, graph, content, loaded, run, applied, built, documents, (each 0).2.mpr noEmpty⟩

open Example in
/-- An empty text is no document in the log, and one that `Load` adds. -/
theorem documents_emptyText : ∃ calls graph,
    Runs (step names .exact catalog texts) anyAction empty calls graph ∧
    (graph.content ascii).map (documentsOf 0) = some [] ∧
    (load ascii names texts graph.vertices).map (documentsOf 0) = some [⟨["title"], [[]]⟩] := by
  let calls : List GraphCall := [.create [1] (Table.empty.put 2 ⟨.string [], rfl⟩)]
  have computed : (execute (step names .exact catalog texts) anyAction empty calls).map (fun graph =>
      ((graph.content ascii).map (documentsOf 0), (load ascii names texts graph.vertices).map (documentsOf 0))) =
      some (some [], some [⟨["title"], [[]]⟩]) := by decide +kernel
  obtain ⟨graph, executed, observed⟩ := map_eq_some_iff.mp computed
  exact ⟨calls, graph, runs_of_execute executed, congrArg Prod.fst observed, congrArg Prod.snd observed⟩

end DocumentedGraph

end RocksGraph.Storage
