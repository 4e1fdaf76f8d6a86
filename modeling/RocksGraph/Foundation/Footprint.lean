import Mathlib.Data.Set.Basic

/-! Actions on a state of cells that may fail, the locations they read and write,
and when two of them can change places.

A loop that does two things for every item does what two loops do, one after the
other, if the second thing for an item commutes with the first thing for every
item behind it, in the states in which they meet. -/

set_option autoImplicit false

namespace RocksGraph.Foundation

open List

abbrev Action (State Error Value : Type) := StateT State (Except Error) Value

variable {State Error Value Result Item : Type}

/-- The action succeeds in a state, with this value and final state. -/
def Action.Gives (action : Action State Error Value) (first : State) (value : Value) (last : State) : Prop :=
  action first = .ok (value, last)

variable {items : List Item} {Total : Type}

variable {change : State → State}

namespace Action

variable {action : Action State Error Value} {next : Value → Action State Error Result} {first last : State}
  {value : Value} {result : Result}

theorem gives_pure {given : Value} :
    Gives (pure given : Action State Error Value) first value last ↔ value = given ∧ last = first := by
  constructor
  · intro gives
    obtain ⟨rfl, rfl⟩ := Prod.mk.inj (Except.ok.inj gives)
    exact ⟨rfl, rfl⟩
  · rintro ⟨rfl, rfl⟩
    rfl

theorem gives_bind : Gives (action >>= next) first result last ↔
      ∃ value middle, Gives action first value middle ∧ Gives (next value) middle result last := by
  change (action first >>= fun done => next done.1 done.2) = .ok (result, last) ↔ _
  unfold Gives
  cases done : action first with
  | error error =>
    constructor
    · intro failed
      cases failed
    · rintro ⟨value, middle, gives, -⟩
      cases gives
  | ok pair =>
    obtain ⟨value, middle⟩ := pair
    constructor
    · intro gives
      exact ⟨value, middle, rfl, gives⟩
    · rintro ⟨other, state, same, gives⟩
      obtain ⟨rfl, rfl⟩ := Prod.mk.inj (Except.ok.inj same)
      exact gives

theorem gives_throw {error : Error} : ¬ Gives (throw error : Action State Error Value) first value last := nofun

def inspect (read : State → Except Error Value) : Action State Error Value :=
  fun state => (read state).map fun value => (value, state)

theorem gives_inspect {read : State → Except Error Value} :
    Gives (inspect read) first value last ↔ read first = .ok value ∧ last = first := by
  unfold Gives inspect
  cases read first <;> simp [Except.map, eq_comm]

theorem gives_modify {done : PUnit} :
    Gives (modify change : Action State Error PUnit) first done last ↔ last = change first :=
  ⟨fun gives => (Prod.mk.inj (Except.ok.inj gives)).2.symm, fun same => same ▸ rfl⟩

def AgreesAt (first : State) (left right : Action State Error Value) : Prop :=
  ∀ value last, Gives left first value last ↔ Gives right first value last

variable {left : Action State Error Value}

theorem AgreesAt.bind {right : Action State Error Value} (agree : AgreesAt first left right)
    (next : Value → Action State Error Result) : AgreesAt first (left >>= next) (right >>= next) := by
  intro result last
  rw [gives_bind, gives_bind]
  exact exists_congr fun value => exists_congr fun middle => and_congr_left fun _ => agree value middle

def CommutesAt (first : State) (left : Action State Error Value) (right : Action State Error Result) : Prop :=
  ∀ last value result,
    (∃ middle, Gives left first value middle ∧ Gives right middle result last) ↔
      ∃ middle, Gives right first result middle ∧ Gives left middle value last

/-- What holds for every item, with those behind it, in the state that the items before it leave. -/
def Along (part : Item → Action State Error Value) (holds : Item → List Item → State → Prop) : List Item → State → Prop
  | [], _ => True
  | item :: rest, state => holds item rest state ∧
      ∀ value next, Gives (part item) state value next → Along part holds rest next

theorem Along.imp {part : Item → Action State Error Value} {holds more : Item → List Item → State → Prop}
    (along : Along part holds items first) (implies : ∀ {item rest state}, holds item rest state → more item rest state) :
    Along part more items first := by
  induction items generalizing first with
  | nil => trivial
  | cons item rest ih => exact ⟨implies along.1, fun value next gives => ih (along.2 value next gives)⟩

theorem CommutesAt.mapM {part : Item → Action State Error Result}
    (each : Along part (fun item _ state => CommutesAt state left (part item)) items first) :
    CommutesAt first left (items.mapM part) := by
  induction items generalizing first with
  | nil =>
    intro last value results
    simp only [mapM_nil, gives_pure]
    constructor
    · rintro ⟨middle, gives, rfl, rfl⟩
      exact ⟨first, ⟨rfl, rfl⟩, gives⟩
    · rintro ⟨middle, ⟨rfl, rfl⟩, gives⟩
      exact ⟨last, gives, rfl, rfl⟩
  | cons item rest ih =>
    obtain ⟨here, later⟩ := each
    intro last value results
    simp only [mapM_cons, gives_bind, gives_pure]
    constructor
    · rintro ⟨middle, gives, result, second, atItem, others, third, atRest, rfl, rfl⟩
      obtain ⟨moved, itemFirst, leftSecond⟩ := (here second value result).mp ⟨middle, gives, atItem⟩
      obtain ⟨done, restSecond, leftLast⟩ := (ih (later _ _ itemFirst) last value others).mp ⟨second, leftSecond, atRest⟩
      exact ⟨done, ⟨result, moved, itemFirst, others, done, restSecond, rfl, rfl⟩, leftLast⟩
    · rintro ⟨middle, ⟨result, moved, atItem, others, third, atRest, rfl, rfl⟩, gives⟩
      obtain ⟨second, leftSecond, restLast⟩ := (ih (later _ _ atItem) last value others).mpr ⟨middle, atRest, gives⟩
      obtain ⟨start, leftFirst, itemSecond⟩ := (here second value result).mpr ⟨moved, atItem, leftSecond⟩
      exact ⟨start, leftFirst, result, second, itemSecond, others, last, restLast, rfl, rfl⟩

/-- Loop fission. `after` leaves the states that the second part leaves, whatever it has collected before. -/
theorem foldlM_fission {Image Done : Type} {part : Item → Action State Error Image}
    {body : Total → Image → Action State Error Total} {after : Image → Action State Error Done}
    (follows : ∀ total image first next last, Gives (body total image) first next last →
      ∃ done, Gives (after image) first done last)
    (commutes : Along (fun item => part item >>= after) (fun item rest first => ∀ image middle,
      Gives (part item) first image middle →
        Along part (fun later _ state => ∀ total, CommutesAt state (body total image) (part later)) rest middle)
      items first) (total : Total) :
    AgreesAt first (items.foldlM (fun total item => part item >>= body total) total)
      (items.mapM part >>= fun images => images.foldlM body total) := by
  induction items generalizing first total with
  | nil =>
    intro value last
    simp [gives_pure]
  | cons item rest ih =>
    obtain ⟨here, later⟩ := commutes
    intro value last
    have swap : ∀ {image middle}, Gives (part item) first image middle → ∀ total,
        CommutesAt middle (body total image) (rest.mapM part) :=
      fun atItem total => .mapM ((here _ _ atItem).imp fun commutes => commutes total)
    have onward : ∀ {image start next second}, Gives (part item) first image start →
        Gives (body total image) start next second →
        AgreesAt second (rest.foldlM (fun total item => part item >>= body total) next)
          (rest.mapM part >>= fun images => images.foldlM body next) := by
      intro image start next second atItem atBody
      obtain ⟨done, atAfter⟩ := follows total image start next second atBody
      exact ih (later done second (gives_bind.mpr ⟨image, start, atItem, atAfter⟩)) next
    simp only [foldlM_cons, mapM_cons, gives_bind, gives_pure]
    constructor
    · rintro ⟨next, second, ⟨image, start, atItem, atBody⟩, atRest⟩
      obtain ⟨images, third, parts, bodies⟩ := gives_bind.mp ((onward atItem atBody value last).mp atRest)
      obtain ⟨moved, partsFirst, bodySecond⟩ := (swap atItem total third next images).mp ⟨second, atBody, parts⟩
      refine ⟨image :: images, moved, ⟨image, start, atItem, images, moved, partsFirst, rfl, rfl⟩, ?_⟩
      exact gives_bind.mpr ⟨next, third, bodySecond, bodies⟩
    · rintro ⟨_, moved, ⟨image, start, atItem, images, _, partsFirst, rfl, rfl⟩, atBodies⟩
      obtain ⟨next, third, bodySecond, bodies⟩ := gives_bind.mp atBodies
      obtain ⟨second, atBody, parts⟩ := (swap atItem total third next images).mpr ⟨_, partsFirst, bodySecond⟩
      refine ⟨next, second, ⟨image, start, atItem, atBody⟩, (onward atItem atBody value last).mpr ?_⟩
      exact gives_bind.mpr ⟨images, third, parts, bodies⟩

theorem map_foldlM {Monadic : Type → Type} [Monad Monadic] [LawfulMonad Monadic] {View : Type}
    {body : Total → Item → Monadic Total} {viewed : View → Item → Monadic View} (view : Total → View)
    (each : ∀ total item, view <$> body total item = viewed (view total) item) (items : List Item) (total : Total) :
    view <$> items.foldlM body total = items.foldlM viewed (view total) := by
  induction items generalizing total with
  | nil => simp
  | cons item rest ih => simp [← each, ih]

end Action

structure Footprint (Location : Type) where
  reads : Set Location
  writes : Set Location

variable {Location Cell : Type}

def Footprint.nothing : Footprint Location := ⟨∅, ∅⟩

def Footprint.ofReads (reads : Set Location) : Footprint Location := ⟨reads, ∅⟩

def Footprint.ofWrites (writes : Set Location) : Footprint Location := ⟨∅, writes⟩

def Footprint.join (first second : Footprint Location) : Footprint Location :=
  ⟨first.reads ∪ second.reads, first.writes ∪ second.writes⟩

/-- In this state the action changes nothing that the footprint reads or writes. -/
def Footprint.SparedBy (read : State → Location → Cell) (footprint : Footprint Location)
    (action : Action State Error Value) (first : State) : Prop :=
  ∀ value last, action.Gives first value last →
    ∀ location ∈ footprint.reads ∪ footprint.writes, read last location = read first location

/-- An action inside its footprint: it leaves the other cells alone, and where two states agree on what it reads it has
the same value in both and either writes the same to a cell or leaves the cell alone in both. -/
structure Confined (read : State → Location → Cell) (footprint : Footprint Location)
    (action : Action State Error Value) : Prop where
  frame : ∀ first value last, action.Gives first value last →
    ∀ location, location ∉ footprint.writes → read last location = read first location
  determined : ∀ first value last other, (∀ location ∈ footprint.reads, read first location = read other location) →
    action.Gives first value last → ∃ otherLast, action.Gives other value otherLast ∧ ∀ location,
      read last location = read otherLast location ∨
        read last location = read first location ∧ read otherLast location = read other location

namespace Confined

variable {read : State → Location → Cell} {footprint : Footprint Location} {action : Action State Error Value}

theorem pure (value : Value) : Confined read footprint (Pure.pure value : Action State Error Value) := by
  constructor
  · rintro first _ _ gives location -
    obtain ⟨rfl, rfl⟩ := Action.gives_pure.mp gives
    rfl
  · rintro first _ _ other - gives
    obtain ⟨rfl, rfl⟩ := Action.gives_pure.mp gives
    exact ⟨other, rfl, fun location => .inr ⟨rfl, rfl⟩⟩

theorem throw (error : Error) : Confined read footprint (MonadExcept.throw error : Action State Error Value) :=
  ⟨fun _ _ _ gives => (Action.gives_throw gives).elim, fun _ _ _ _ _ gives => (Action.gives_throw gives).elim⟩

theorem inspect {value : State → Except Error Value} (congr : ∀ first second,
    (∀ location ∈ footprint.reads, read first location = read second location) → value first = value second) :
    Confined read footprint (Action.inspect value) := by
  constructor
  · intro first result last gives location _
    obtain ⟨-, rfl⟩ := Action.gives_inspect.mp gives
    rfl
  · intro first result last other agree gives
    obtain ⟨found, rfl⟩ := Action.gives_inspect.mp gives
    refine ⟨other, Action.gives_inspect.mpr ⟨?_, rfl⟩, fun location => .inr ⟨rfl, rfl⟩⟩
    rw [← congr _ other agree, found]

theorem update (changed : ∀ location,
      (∀ state, read (change state) location = read state location) ∨
      location ∈ footprint.writes ∧ ∃ cell, ∀ state, read (change state) location = cell) :
    Confined read footprint (modify change : Action State Error PUnit) := by
  constructor
  · intro first result last gives location notWritten
    rw [Action.gives_modify.mp gives]
    rcases changed location with same | ⟨written, -⟩
    · exact same first
    · exact absurd written notWritten
  · intro first result last other _ gives
    refine ⟨change other, Action.gives_modify.mpr rfl, fun location => ?_⟩
    rw [Action.gives_modify.mp gives]
    rcases changed location with same | ⟨-, cell, assigned⟩
    · exact .inr ⟨same first, same other⟩
    · exact .inl ((assigned first).trans (assigned other).symm)

variable {more : Footprint Location} {possible : Value → Prop}

section

variable (confined : Confined read footprint action)
include confined

theorem mono
    (reads : footprint.reads ⊆ more.reads) (writes : footprint.writes ⊆ more.writes) : Confined read more action :=
  ⟨fun first value last gives location outside =>
      confined.frame first value last gives location fun mem => outside (writes mem),
    fun first value last other agree =>
      confined.determined first value last other fun location mem => agree location (reads mem)⟩

section

variable (values : ∀ first value last, action.Gives first value last → possible value)
include values

variable {next : Value → Action State Error Result}

theorem bind
    (continued : ∀ value, possible value → Confined read more (next value)) :
    Confined read (footprint.join more) (action >>= next) := by
  constructor
  · intro first result last gives location outside
    obtain ⟨value, middle, atAction, atNext⟩ := Action.gives_bind.mp gives
    obtain ⟨early, late⟩ := not_or.mp outside
    rw [(continued value (values first value middle atAction)).frame middle result last atNext location late,
      confined.frame first value middle atAction location early]
  · intro first result last other agree gives
    obtain ⟨value, middle, atAction, atNext⟩ := Action.gives_bind.mp gives
    obtain ⟨otherMiddle, otherAction, sameMiddle⟩ :=
      confined.determined first value middle other (fun location mem => agree location (.inl mem)) atAction
    have agreeMiddle : ∀ location ∈ more.reads, read middle location = read otherMiddle location := by
      intro location mem
      rcases sameMiddle location with same | ⟨left, right⟩
      · exact same
      · rw [left, right, agree location (.inr mem)]
    obtain ⟨otherLast, otherNext, sameLast⟩ := (continued value (values first value middle atAction)).determined
      middle result last otherMiddle agreeMiddle atNext
    refine ⟨otherLast, Action.gives_bind.mpr ⟨value, otherMiddle, otherAction, otherNext⟩, fun location => ?_⟩
    rcases sameLast location with same | ⟨left, right⟩
    · exact .inl same
    · rw [left, right]
      exact sameMiddle location

theorem within
    (continued : ∀ value, possible value → Confined read footprint (next value)) :
    Confined read footprint (action >>= next) :=
  (confined.bind values continued).mono (Set.union_self _).subset (Set.union_self _).subset

end

theorem andThen {next : Value → Action State Error Result}
    (continued : ∀ value, Confined read footprint (next value)) : Confined read footprint (action >>= next) :=
  confined.within (fun _ _ _ _ => trivial) fun value _ => continued value

end

theorem mapM {body : Item → Action State Error Value}
    (each : ∀ item ∈ items, Confined read footprint (body item)) : Confined read footprint (items.mapM body) := by
  induction items with
  | nil => exact .pure []
  | cons item rest ih =>
    obtain ⟨here, later⟩ := forall_mem_cons.mp each
    rw [mapM_cons]
    exact here.andThen fun value => (ih later).andThen fun values => .pure (value :: values)

theorem foldlM {body : Total → Item → Action State Error Total} {total : Total}
    (each : ∀ total, ∀ item ∈ items, Confined read footprint (body total item)) :
    Confined read footprint (items.foldlM body total) := by
  induction items generalizing total with
  | nil => exact .pure total
  | cons item rest ih =>
    exact (each total item mem_cons_self).andThen fun next =>
      ih fun total item mem => each total item (mem_cons_of_mem _ mem)

theorem move {Left Right : Type} {left : Action State Error Left} {right : Action State Error Right}
    {leftPrint rightPrint : Footprint Location}
    (extensional : ∀ first last : State, (∀ location, read first location = read last location) → first = last)
    (leftConfined : Confined read leftPrint left) (rightConfined : Confined read rightPrint right)
    {first middle last : State} {value : Left} {result : Right} (rightSpared : rightPrint.SparedBy read left first)
    (leftSpared : leftPrint.SparedBy read right first) (atLeft : left.Gives first value middle)
    (atRight : right.Gives middle result last) :
    ∃ moved, right.Gives first result moved ∧ left.Gives moved value last := by
  have kept := rightSpared value middle atLeft
  obtain ⟨moved, rightFirst, sameMoved⟩ := rightConfined.determined middle result last first
    (fun location mem => kept location (.inl mem)) atRight
  have framed := leftSpared result moved rightFirst
  obtain ⟨final, leftSecond, sameFinal⟩ := leftConfined.determined first value middle moved
    (fun location mem => (framed location (.inl mem)).symm) atLeft
  have same : final = last := by
    refine extensional final last fun location => ?_
    by_cases written : location ∈ leftPrint.writes
    · -- the left action decides, and the right one leaves its value alone
      have decided : read final location = read middle location := by
        rcases sameFinal location with equal | ⟨unchanged, after⟩
        · exact equal.symm
        · rw [after, unchanged, framed location (.inr written)]
      rw [decided]
      by_cases both : location ∈ rightPrint.writes
      · rcases sameMoved location with equal | ⟨unchanged, -⟩
        · rw [equal, framed location (.inr written), kept location (.inr both)]
        · exact unchanged.symm
      · exact (rightConfined.frame _ _ _ atRight location both).symm
    · rw [leftConfined.frame _ _ _ leftSecond location written]
      rcases sameMoved location with equal | ⟨unchanged, after⟩
      · exact equal.symm
      · rw [after, unchanged, leftConfined.frame _ _ _ atLeft location written]
  exact ⟨moved, rightFirst, same ▸ leftSecond⟩

theorem commutesAt {other : Footprint Location} {second : Action State Error Result} {first : State}
    (extensional : ∀ first last : State, (∀ location, read first location = read last location) → first = last)
    (confined : Confined read footprint action) (secondConfined : Confined read other second)
    (otherSpared : other.SparedBy read action first) (spared : footprint.SparedBy read second first) :
    Action.CommutesAt first action second := by
  intro last value result
  constructor
  · rintro ⟨middle, atLeft, atRight⟩
    exact move extensional confined secondConfined otherSpared spared atLeft atRight
  · rintro ⟨middle, atRight, atLeft⟩
    exact move extensional secondConfined confined spared otherSpared atRight atLeft

end Confined

end RocksGraph.Foundation
