import Inventory.Topology.Place

/-!
# Topology — the descent through a model

A descent visits the elements of a model depth first and places each at a
trail. It records either the legal next steps of every trail, or for every
trail whether the instances there may be deleted. An element is visited once
per trail; an element below itself is an error.
-/

namespace Inventory

/-! ## What is recorded -/

/-- What a descent is for. -/
inductive Purpose where
  | topology
  | deletion
  deriving DecidableEq

/-- For every trail key, whether instances found there may be deleted. -/
abbrev DeleteFlags := Table Bool

/-- What a descent has recorded. -/
structure Descent where
  topology : Topology
  flags : DeleteFlags := ∅
  /-- The elements visited, each with the key of its trail. -/
  seen : List (VertexId × String) := []

namespace Descent

/-- Mark a trail; a trail marked several times is deletable only if every mark says so. -/
def flag (d : Descent) (trail : Trail) (deletable : Bool) : Descent :=
  { d with flags := d.flags.put trail.key ((d.flags.get? trail.key).getD deletable && deletable) }

/-- Remember a visit. -/
def see (d : Descent) (id : VertexId) (trail : Trail) : Descent :=
  { d with seen := (id, trail.key) :: d.seen }

/-- Let a step follow a trail. -/
def allow (d : Descent) (trail : Trail) (s : TrailStep) : Descent :=
  { d with topology := d.topology.insert trail s }

/-- Record the hops of one linkage path: the steps themselves, or the mark at
the end of the path. -/
def recordHops (d : Descent) (purpose : Purpose) (e : Element) (trail : Trail)
    (hops : List Hop) : Descent :=
  match purpose with
  | .topology => hops.foldl (fun d h => d.allow h.start h.step) d
  | .deletion => d.flag ((hops.getLast?.map Hop.finish).getD trail) e.deletable

/-- Record every linkage path of an element. -/
def recordLinkage (d : Descent) (rules : RuleTable) (purpose : Purpose) (e : Element)
    (trail : Trail) : Outcome Descent :=
  e.linkagePoints.foldlM (fun d path => do
    let hops ← linkageHops rules trail path
    .ok (d.recordHops purpose e trail hops)) d

end Descent

/-! ## The descent -/

/-- Whether the sub-model of an element is entered: deletion stays out of what
must not be deleted. -/
def Purpose.enters (purpose : Purpose) (m : Model) (e : Element) : Bool :=
  m.kind.isComposite && (purpose == .topology || e.deletable)

/-- Visit an element placed at a trail. An element with linkage points ends
there. Otherwise the sub-model the element stands for is visited at the same
trail, and each element it connects to one step further. -/
def descend (g : Graph) (ctx : Context) (purpose : Purpose) :
    Nat → List VertexId → Scope → Element → Trail → Descent → Outcome Descent
  | 0, _, _, _, _, _ => .error (.modelTooDeep ctx.limits.levels)
  | levels + 1, ancestors, scope, e, trail, d =>
    if e.vertexId ∈ ancestors then .error (.modelCycle e.vertexId)
    else if (e.vertexId, trail.key) ∈ d.seen then .ok d
    else if e.linkagePoints ≠ [] then
      (d.see e.vertexId trail).recordLinkage ctx.catalog.rules purpose e trail
    else do
      let d := d.see e.vertexId trail
      let d := if purpose = .deletion then d.flag trail e.deletable else d
      let scope := scope.extend (← e.constraints g)
      let ancestors := e.vertexId :: ancestors
      let model ← e.model g
      let d ← if purpose.enters model e then do
          descend g ctx purpose levels ancestors scope (← model.topElement g) trail d
        else .ok d
      (← e.connections g).foldlM (fun d connection => do
        (← connection.resolve g scope).foldlM (fun d child => do
          let step ← (← child.model g).step g ctx levels
          let _ ← ctx.catalog.rules.require trail.last.nodeType step.nodeType
          descend g ctx purpose levels ancestors scope child (trail.extend step)
            (d.allow trail step)) d) d

/-- A descent from an element at the root of a topology. -/
def descendFrom (g : Graph) (ctx : Context) (purpose : Purpose) (top : Element)
    (root : TrailStep) : Outcome Descent :=
  descend g ctx purpose (ctx.levelsFrom 0) [] {} top ⟨root, []⟩ { topology := ⟨root, ∅⟩ }

/-! ## Topologies of models -/

/-- The topology of a model; a widget's has a root only. -/
def Topology.ofModel (g : Graph) (ctx : Context) (m : Model) : Outcome Topology :=
  match m.widgetType? with
  | some t => .ok ⟨⟨t, none⟩, ∅⟩
  | none => do
    let root ← m.stepAt g ctx 0
    let top ← m.topElement g
    let d ← descendFrom g ctx .topology top root
    .ok d.topology

/-! ## Delete flags of models -/

/-- The delete flags below an element. When an id and a version are given they
are the persona of the root step, if instances of its type carry one. -/
def DeleteFlags.ofElement (g : Graph) (ctx : Context) (top : Element)
    (modelId modelVersion : Option String) : Outcome DeleteFlags := do
  let step ← (← top.model g).stepAt g ctx 0
  let root : TrailStep := match modelId, modelVersion with
    | some id, some version =>
      if ctx.catalog.supportsPersona step.nodeType then ⟨step.nodeType, some ⟨id, version⟩⟩
      else step
    | _, _ => step
  let d ← descendFrom g ctx .deletion top root
  .ok d.flags

/-- The delete flags of a model; instances of a widget may always be deleted. -/
def DeleteFlags.ofModel (g : Graph) (ctx : Context) (m : Model) : Outcome DeleteFlags :=
  match m.widgetType? with
  | some t => .ok (Table.ofList [(t, true)])
  | none => do
    let top ← m.topElement g
    DeleteFlags.ofElement g ctx top (some m.modelId) (some m.modelVersion)

end Inventory
