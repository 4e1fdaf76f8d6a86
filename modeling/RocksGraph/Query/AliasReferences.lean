import Mathlib.Data.List.Nodup

/-! References to projection aliases (`projection_alias_reference_rewriter.cc`).

In ORDER BY and in the WHERE of a WITH, an expression that an item projects gives
way to the alias of the item. Both have the same value unless an alias hides a
variable that the replaced expression reads, or the expression may have another
value when it is evaluated again. -/

set_option autoImplicit false

namespace RocksGraph.AliasReferences

mutual

/-- A symbol holds all of a node but the children: operators, keys and literals,
the variables of a pattern, and a whole expression that binds variables, which
the rewriter does not enter. -/
inductive Expression (Symbol : Type) where
  | var (name : String)
  | node (symbol : Symbol) (children : Children Symbol)
deriving DecidableEq

inductive Children (Symbol : Type) where
  | nil
  | cons (head : Expression Symbol) (tail : Children Symbol)
deriving DecidableEq

end

structure ProjectionItem (Symbol : Type) where
  aliasName : String
  expression : Expression Symbol

variable {Symbol Value : Type}

def projectionAliases (items : List (ProjectionItem Symbol)) : List (ProjectionItem Symbol) :=
  items.filter (·.aliasName ≠ "")

/-- A WITH, or a RETURN, which has no WHERE. `ValidateProjectionColumns` lets no column occur twice. -/
structure With (Symbol : Type) where
  items : List (ProjectionItem Symbol)
  orderBy : List (Expression Symbol)
  condition : Option (Expression Symbol)
  unique : ((projectionAliases items).map (·.aliasName)).Nodup

section Rewriter

variable [DecidableEq Symbol] (aliases : List (ProjectionItem Symbol))

def replace (expression kept : Expression Symbol) : Expression Symbol :=
  match aliases.find? (·.expression = expression) with
  | some item => .var item.aliasName
  | none => kept

mutual

def rewriteExpression : Expression Symbol → Expression Symbol
  | .var name => if aliases.any (·.aliasName = name) then .var name else replace aliases (.var name) (.var name)
  | .node symbol children => replace aliases (.node symbol children) (.node symbol (rewriteChildren children))

def rewriteChildren : Children Symbol → Children Symbol
  | .nil => .nil
  | .cons head tail => .cons (rewriteExpression head) (rewriteChildren tail)

end

def With.visit (node : With Symbol) : With Symbol :=
  let aliases := projectionAliases node.items
  if aliases.isEmpty then node
  else { node with
    orderBy := node.orderBy.map (rewriteExpression aliases)
    condition := node.condition.map (rewriteExpression aliases) }

end Rewriter

/-- `names` are the variables that a symbol reads besides its children. A symbol that is not `steady`, such as
`rand()` or the clock, may have another value each time. -/
structure Signature (Symbol : Type) where
  names : Symbol → List String
  steady : Symbol → Bool

/-- An evaluation: of the item of an alias or, for `none`, of an ORDER BY or WHERE, and the path to the node. -/
abbrev Place := Option String × List Nat

def Place.below (place : Place) (turn : Nat) : Place := (place.1, turn :: place.2)

/-- What the symbols mean on a row. For an aggregation a value stands for the
values on all rows of a group. -/
structure Meaning (signature : Signature Symbol) (Value : Type) where
  apply : Symbol → Place → (String → Value) → List Value → Value
  congr : ∀ symbol place values (first second : String → Value),
    (∀ name ∈ signature.names symbol, first name = second name) →
      apply symbol place first values = apply symbol place second values
  steady : ∀ symbol, signature.steady symbol → ∀ one two row values,
    apply symbol one row values = apply symbol two row values

section Values

variable {signature : Signature Symbol} (meaning : Meaning signature Value)

mutual

def value (place : Place) (row : String → Value) : Expression Symbol → Value
  | .var name => row name
  | .node symbol children => meaning.apply symbol place row (values place row children)

def values (place : Place) (row : String → Value) : Children Symbol → List Value
  | .nil => []
  | .cons head tail => value (place.below 0) row head :: values (place.below 1) row tail

end

/-- A name that is an alias denotes the projected value. -/
def outputRow (aliases : List (ProjectionItem Symbol)) (row : String → Value) (name : String) : Value :=
  match aliases.find? (·.aliasName = name) with
  | some item => value meaning (some name, []) row item.expression
  | none => row name

end Values

section Condition

variable (signature : Signature Symbol)

mutual

def reads : Expression Symbol → List String
  | .var name => [name]
  | .node symbol children => signature.names symbol ++ allReads children

def allReads : Children Symbol → List String
  | .nil => []
  | .cons head tail => reads head ++ allReads tail

end

mutual

def steady : Expression Symbol → Bool
  | .var _ => true
  | .node symbol children => signature.steady symbol && allSteady children

def allSteady : Children Symbol → Bool
  | .nil => true
  | .cons head tail => steady head && allSteady tail

end

/-- An alias that the expression reads as a variable projects that variable. -/
def Clear (aliases : List (ProjectionItem Symbol)) (expression : Expression Symbol) : Prop :=
  steady signature expression ∧ ∀ other ∈ aliases, other.aliasName ∈ reads signature expression →
    other.expression = .var other.aliasName

variable [DecidableEq Symbol] (aliases : List (ProjectionItem Symbol))

mutual

/-- What is replaced is clear. A variable is replaced only when it is no alias. -/
def Kept : Expression Symbol → Prop
  | .var _ => True
  | .node symbol children =>
    match aliases.find? (·.expression = .node symbol children) with
    | some _ => Clear signature aliases (.node symbol children)
    | none => AllKept children

def AllKept : Children Symbol → Prop
  | .nil => True
  | .cons head tail => Kept head ∧ AllKept tail

end

end Condition

variable {signature : Signature Symbol} {meaning : Meaning signature Value} {aliases : List (ProjectionItem Symbol)}
  {first second : String → Value}

mutual

theorem value_congr (one two : Place) : (expression : Expression Symbol) →
    (∀ name ∈ reads signature expression, first name = second name) → steady signature expression →
      value meaning one first expression = value meaning two second expression
  | .var name, same, _ => same name (by simp [reads])
  | .node symbol children, same, fixed => by
    simp only [reads, List.forall_mem_append, steady, Bool.and_eq_true] at same fixed
    rw [value, value, values_congr one two children same.2 fixed.2, meaning.steady symbol fixed.1 one two]
    exact meaning.congr symbol two _ first second same.1

theorem values_congr (one two : Place) : (children : Children Symbol) →
    (∀ name ∈ allReads signature children, first name = second name) → allSteady signature children →
      values meaning one first children = values meaning two second children
  | .nil, _, _ => rfl
  | .cons head tail, same, fixed => by
    simp only [allReads, List.forall_mem_append, allSteady, Bool.and_eq_true] at same fixed
    rw [values, values, value_congr _ _ head same.1 fixed.1, values_congr _ _ tail same.2 fixed.2]

end

theorem outputRow_aliasName (unique : (aliases.map (·.aliasName)).Nodup) (row : String → Value)
    {item : ProjectionItem Symbol} (mem : item ∈ aliases) : outputRow meaning aliases row item.aliasName =
      value meaning (some item.aliasName, []) row item.expression := by
  unfold outputRow
  split
  next other found =>
    have sameName : other.aliasName = item.aliasName := by simpa using List.find?_some found
    rw [List.inj_on_of_nodup_map unique (List.mem_of_find?_eq_some found) mem sameName]
  next none =>
    simpa using List.find?_eq_none.mp none item mem

theorem Clear.outputRow_eq {expression : Expression Symbol} (clear : Clear signature aliases expression)
    (row : String → Value) : ∀ name ∈ reads signature expression, row name = outputRow meaning aliases row name := by
  intro name isRead
  unfold outputRow
  split
  next other found =>
    obtain rfl : other.aliasName = name := by simpa using List.find?_some found
    rw [clear.2 other (List.mem_of_find?_eq_some found) isRead, value]
  · rfl

section

variable [DecidableEq Symbol] (row : String → Value)

mutual

theorem value_rewriteExpression (unique : (aliases.map (·.aliasName)).Nodup) (place : Place) :
    (expression : Expression Symbol) →
    Kept signature aliases expression →
      value meaning place (outputRow meaning aliases row) (rewriteExpression aliases expression) =
        value meaning place (outputRow meaning aliases row) expression
  | .var name, _ => by
    rw [rewriteExpression]
    split
    · rfl
    next free =>
      unfold replace
      split
      next item found =>
        have same : item.expression = .var name := by simpa using List.find?_some found
        rw [value, outputRow_aliasName unique row (List.mem_of_find?_eq_some found), same, value, value, outputRow]
        -- a name that is no alias is read from the input
        rw [List.find?_eq_none.mpr fun other mem => by simpa using fun isName => free (by simp; exact ⟨other, mem, isName⟩)]
      · rfl
  | .node symbol children, kept => by
    rw [Kept] at kept
    rw [rewriteExpression, replace]
    split
    next item found =>
      rw [found] at kept
      have same : item.expression = .node symbol children := by simpa using List.find?_some found
      rw [value, outputRow_aliasName unique row (List.mem_of_find?_eq_some found), same]
      exact value_congr _ _ _ (kept.outputRow_eq row) kept.1
    next absent =>
      rw [absent] at kept
      rw [value, value, values_rewriteChildren unique place children kept]

theorem values_rewriteChildren (unique : (aliases.map (·.aliasName)).Nodup) (place : Place) :
    (children : Children Symbol) →
    AllKept signature aliases children →
      values meaning place (outputRow meaning aliases row) (rewriteChildren aliases children) =
        values meaning place (outputRow meaning aliases row) children
  | .nil, _ => rfl
  | .cons head tail, kept => by
    rw [AllKept] at kept
    rw [rewriteChildren, values, values, value_rewriteExpression unique _ head kept.1,
      values_rewriteChildren unique _ tail kept.2]

end

end

/-! ### Values that tell all apart -/

inductive Term (Symbol : Type) where
  | name (name : String)
  | node (symbol : Symbol) (place : Option Place) (values names : List (Term Symbol))

/-- Every node denotes itself, with the place where it is evaluated if it is not steady. -/
def free (signature : Signature Symbol) : Meaning signature (Term Symbol) where
  apply symbol place row values :=
    .node symbol (if signature.steady symbol then none else some place) values ((signature.names symbol).map row)
  congr symbol place values first second same := by rw [List.map_congr_left same]
  steady symbol fixed one two row values := by rw [if_pos fixed, if_pos fixed]

section

variable {first second : String → Term Symbol}

mutual

theorem free_inj {one two : Place} (apart : one.1 ≠ two.1) : (expression : Expression Symbol) →
    value (free signature) one first expression = value (free signature) two second expression →
      (∀ name ∈ reads signature expression, first name = second name) ∧ steady signature expression
  | .var name, same => by
    rw [value, value] at same
    simp [reads, steady, same]
  | .node symbol children, same => by
    obtain ⟨-, places, below, named⟩ := Term.node.inj same
    have fixed : signature.steady symbol = true := by
      by_contra unsteady
      rw [if_neg unsteady, if_neg unsteady] at places
      exact apart (congrArg Prod.fst (Option.some.inj places))
    obtain ⟨read, allFixed⟩ := values_free_inj apart children below
    simp only [reads, List.forall_mem_append, steady, Bool.and_eq_true]
    exact ⟨⟨List.map_inj_left.mp named, read⟩, fixed, allFixed⟩

theorem values_free_inj {one two : Place} (apart : one.1 ≠ two.1) : (children : Children Symbol) →
    values (free signature) one first children = values (free signature) two second children →
      (∀ name ∈ allReads signature children, first name = second name) ∧ allSteady signature children
  | .nil, _ => by simp [allReads, allSteady]
  | .cons head tail, same => by
    obtain ⟨here, below⟩ := List.cons.inj same
    obtain ⟨read, fixed⟩ := free_inj (by exact apart) head here
    obtain ⟨others, allFixed⟩ := values_free_inj (by exact apart) tail below
    simp only [allReads, List.forall_mem_append, allSteady, Bool.and_eq_true]
    exact ⟨⟨read, others⟩, fixed, allFixed⟩

end

end

section

variable [DecidableEq Symbol]

mutual

theorem kept_of_value (unique : (aliases.map (·.aliasName)).Nodup) {place : Place} (later : place.1 = none) :
    (expression : Expression Symbol) →
    value (free signature) place (outputRow (free signature) aliases .name) (rewriteExpression aliases expression) =
      value (free signature) place (outputRow (free signature) aliases .name) expression →
    Kept signature aliases expression
  | .var _, _ => trivial
  | .node symbol children, same => by
    rw [Kept]
    rw [rewriteExpression, replace] at same
    split
    next item found =>
      have equal : item.expression = .node symbol children := by simpa using List.find?_some found
      rw [found] at same
      simp only [value.eq_1, outputRow_aliasName unique _ (List.mem_of_find?_eq_some found), equal] at same
      obtain ⟨read, fixed⟩ := free_inj (by simp [later]) _ same
      refine ⟨fixed, fun other mem isRead => ?_⟩
      -- the projected value is the variable only if the item is
      have denotes := read _ isRead
      rw [outputRow_aliasName unique _ mem] at denotes
      cases expression : other.expression with
      | var name =>
        rw [expression, value] at denotes
        exact congrArg _ (Term.name.inj denotes).symm
      | node =>
        rw [expression] at denotes
        cases denotes
    next absent =>
      rw [absent] at same
      exact allKept_of_values unique later children (Term.node.inj same).2.2.1

theorem allKept_of_values (unique : (aliases.map (·.aliasName)).Nodup) {place : Place} (later : place.1 = none) :
    (children : Children Symbol) →
    values (free signature) place (outputRow (free signature) aliases .name) (rewriteChildren aliases children) =
      values (free signature) place (outputRow (free signature) aliases .name) children →
    AllKept signature aliases children
  | .nil, _ => trivial
  | .cons head tail, same => by
    obtain ⟨here, below⟩ := List.cons.inj same
    exact ⟨kept_of_value unique (by exact later) head here, allKept_of_values unique (by exact later) tail below⟩

end

mutual

theorem rewriteExpression_nil : (expression : Expression Symbol) → rewriteExpression [] expression = expression
  | .var _ => rfl
  | .node _ children => congrArg (Expression.node _) (rewriteChildren_nil children)

theorem rewriteChildren_nil : (children : Children Symbol) → rewriteChildren [] children = children
  | .nil => rfl
  | .cons head tail => by rw [rewriteChildren, rewriteExpression_nil head, rewriteChildren_nil tail]

end

theorem With.visit_eq (node : With Symbol) : node.visit = { node with
    orderBy := node.orderBy.map (rewriteExpression (projectionAliases node.items))
    condition := node.condition.map (rewriteExpression (projectionAliases node.items)) } := by
  unfold With.visit
  simp only
  split
  next empty =>
    have same : rewriteExpression ([] : List (ProjectionItem Symbol)) = id := funext rewriteExpression_nil
    simp [List.isEmpty_iff.mp empty, same]
  · rfl

/-- The rewriter keeps the values, whatever the symbols mean and on every row, just when all that it replaces is clear. -/
theorem visit_values (signature : Signature Symbol) (node : With Symbol) :
    (∀ (Value : Type) (meaning : Meaning signature Value) (row : String → Value),
      let output := outputRow meaning (projectionAliases node.items) row
      node.visit.orderBy.map (value meaning (none, []) output) = node.orderBy.map (value meaning (none, []) output) ∧
        node.visit.condition.map (value meaning (none, []) output) =
          node.condition.map (value meaning (none, []) output)) ↔
    (∀ expression ∈ node.orderBy, Kept signature (projectionAliases node.items) expression) ∧
      ∀ expression ∈ node.condition, Kept signature (projectionAliases node.items) expression := by
  simp only [With.visit_eq, List.map_map, Option.map_map]
  constructor
  · intro keeps
    obtain ⟨sorted, filtered⟩ := keeps _ (free signature) .name
    constructor
    · intro expression mem
      exact kept_of_value node.unique rfl expression (List.map_inj_left.mp sorted expression mem)
    · intro expression mem
      rw [Option.mem_def.mp mem] at filtered
      exact kept_of_value node.unique rfl expression (Option.some.inj filtered)
  · rintro ⟨sorted, filtered⟩ Value meaning row
    exact ⟨List.map_congr_left fun expression mem =>
        value_rewriteExpression row node.unique _ expression (sorted expression mem),
      Option.map_congr fun expression mem =>
        value_rewriteExpression row node.unique _ expression (filtered expression mem)⟩

end

def read (name key : String) : Expression String := .node key (.cons (.var name) .nil)

def keys : Signature String := ⟨fun _ => [], fun _ => true⟩

/-- Values are texts, and a key is appended to its object. -/
def keyed : Meaning keys String where
  apply key _ _ values := String.join (values ++ [key])
  congr _ _ _ _ _ _ := rfl
  steady _ _ _ _ _ _ := rfl

def named : With String := ⟨[⟨"y", read "a" ".x"⟩, ⟨"a", .var "a"⟩], [read "a" ".x"], none, by decide⟩

theorem visit_values_named : named.visit.orderBy = [.var "y"] ∧
    named.visit.orderBy.map (value keyed (none, []) (outputRow keyed named.items fun name => name)) = ["a.x"] := by
  have kept : ∀ expression ∈ named.orderBy, Kept keys (projectionAliases named.items) expression := by
    simp [named, Kept, projectionAliases, Clear, read, reads, steady, allReads, allSteady, keys]
  exact ⟨by decide, ((visit_values keys named).mpr ⟨kept, nofun⟩ String keyed _).1⟩

/-- `WITH a.x AS y, b AS a ORDER BY a.x` sorts by `a.x` of the input instead of `b.x`. -/
theorem visit_hidden : let node : With String := ⟨[⟨"y", read "a" ".x"⟩, ⟨"a", .var "b"⟩], [read "a" ".x"], none, by decide⟩
    let output := outputRow keyed node.items fun name => name
    node.orderBy.map (value keyed (none, []) output) = ["b.x"] ∧
      node.visit.orderBy.map (value keyed (none, []) output) = ["a.x"] := by
  decide

end RocksGraph.AliasReferences
