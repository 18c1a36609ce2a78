import Inventory.Rule.Basic
import Inventory.Graph.Basic

/-!
# Rule — the rule table

At most one rule per unordered pair of node types: a second rule for a pair is
accepted only when it equals the first. A look-up takes a pair in either order
and says whether the rule was given the other way round.
-/

namespace Inventory

/-- The rules in force, one per unordered pair. -/
structure RuleTable where
  rules : List EdgeRule
  deriving DecidableEq

/-- A rule found for a pair, and whether it was given for the reversed pair. -/
structure RuleMatch where
  rule : EdgeRule
  reversed : Bool
  deriving DecidableEq

namespace RuleTable

/-- The table without rules. -/
def empty : RuleTable := ⟨[]⟩

instance : Inhabited RuleTable := ⟨empty⟩

/-! ## Looking up -/

/-- The rule given for a pair in this order. -/
def direct? (t : RuleTable) (a b : NodeType) : Option EdgeRule :=
  t.rules.find? (·.isFor a b)

/-- The rule for a pair in either order. -/
def lookup (t : RuleTable) (a b : NodeType) : Option RuleMatch :=
  match t.direct? a b with
  | some r => some ⟨r, false⟩
  | none => (t.direct? b a).map (⟨·, true⟩)

/-- The rule for a pair that must have one. -/
def require (t : RuleTable) (a b : NodeType) : Outcome RuleMatch :=
  match t.lookup a b with
  | some m => .ok m
  | none => .error (.missingEdgeRule a b)

theorem require_eq_ok {t : RuleTable} {a b : NodeType} {m : RuleMatch} :
    t.require a b = .ok m ↔ t.lookup a b = some m := by
  unfold require
  cases t.lookup a b <;> simp

/-! ## Building -/

/-- Add a rule unless its pair has an equal one. -/
def add (t : RuleTable) (r : EdgeRule) : Outcome RuleTable :=
  match t.lookup r.source r.target with
  | some m => if m.rule = r then .ok t else .error (.conflictingEdgeRule r.source r.target)
  | none => .ok ⟨t.rules ++ [r]⟩

/-- The table of a list of rules. -/
def ofList (rs : List EdgeRule) : Outcome RuleTable := rs.foldlM add empty

/-- The number of rules in force. -/
def size (t : RuleTable) : Nat := t.rules.length

/-! ## Multiplicity -/

/-- Whether an instance of `a` may reach at most one instance of `b`. -/
def singleValued (t : RuleTable) (a b : NodeType) : Outcome Bool := do
  let m ← t.require a b
  .ok (if m.reversed then m.rule.multiplicity.singleSource else m.rule.multiplicity.singleTarget)

/-- Whether one more edge from a vertex to the type `b` would give a
single-valued side a second partner. -/
def breaksFor (t : RuleTable) (g : Graph) (id : VertexId) (b : NodeType) : Outcome Bool := do
  let v ← g.vertex id
  if !(← t.singleValued v.nodeType b) then .ok false
  else
    let m ← t.require v.nodeType b
    let partners ← g.adjacent id .both (.label m.rule.label)
    .ok (partners.any (·.nodeType == b))

/-! ## Dependence -/

/-- Whether instances of `child` depend on an instance of `parent`. -/
def isDependent (t : RuleTable) (parent child : NodeType) : Bool :=
  ((t.direct? parent child).map (·.dependent)).getD false

/-- The types whose instances depend on a type, rising. -/
def dependentTypes (t : RuleTable) (parent : NodeType) : List NodeType :=
  ((t.rules.filter fun r => r.dependent && r.source == parent).map (·.target)).mergeSort
    fun a b => decide (a ≤ b)

end RuleTable

end Inventory
