import Inventory.Definition.Scope
import Inventory.Catalog
import Inventory.Topology

/-!
# Topology — the places of models and linkage points

The step at which instances of a model stand, and the hops that a linkage path
adds below a trail, each of them checked against the edge rules.
-/

namespace Inventory

/-! ## Models -/

/-- The step of a model's instances. A widget stands for its node type. A
composite model stands where its top element does, under its own persona when
instances of that type carry one. -/
def Model.step (g : Graph) (ctx : Context) : Nat → Model → Outcome TrailStep
  | 0, _ => .error (.modelTooDeep ctx.limits.levels)
  | levels + 1, m =>
    match m.widgetType? with
    | some t => .ok ⟨t, none⟩
    | none => do
      let top ← m.topElement g
      let inner ← Model.step g ctx levels (← top.model g)
      .ok (if ctx.catalog.supportsPersona inner.nodeType then ⟨inner.nodeType, some m.persona⟩
        else inner)

/-- The step of a model's instances, found from a depth. -/
def Model.stepAt (g : Graph) (ctx : Context) (depth : Nat) (m : Model) : Outcome TrailStep :=
  m.step g ctx (ctx.levelsFrom depth)

/-! ## Linkage points -/

/-- A step that may follow a trail. -/
structure Hop where
  start : Trail
  step : TrailStep
  deriving DecidableEq

/-- The trail at the end of a hop. -/
def Hop.finish (h : Hop) : Trail := h.start.extend h.step

/-- The hops along bare node types below a trail. -/
def hopsAlong (rules : RuleTable) (trail : Trail) : List NodeType → Outcome (List Hop)
  | [] => .ok []
  | t :: rest => do
    let _ ← rules.require trail.last.nodeType t
    let hops ← hopsAlong rules (trail.extend ⟨t, none⟩) rest
    .ok (⟨trail, ⟨t, none⟩⟩ :: hops)

/-- The node types a path adds below a trail: a first one that names the
element itself is left out. -/
def LinkagePath.beyond (p : LinkagePath) (trail : Trail) : List NodeType :=
  match p.steps with
  | t :: rest => if t = trail.last.nodeType then rest else t :: rest
  | [] => []

/-- The hops a linkage path adds below a trail. -/
def linkageHops (rules : RuleTable) (trail : Trail) (p : LinkagePath) : Outcome (List Hop) :=
  hopsAlong rules trail (p.beyond trail)

end Inventory
