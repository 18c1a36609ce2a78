import Inventory.Topology.OfQuery
import Inventory.Walk.Collector

/-!
# NamedQuery — evaluation

A named query walks from every start vertex that meets the request's filters.
The directive of a trail says what of a node is shown, joins in properties of
other vertices, and drops the node when a constraint fails.
-/

namespace Inventory

/-! ## Requests -/

/-- Keep only results with a node of this type and property. -/
structure SecondaryFilter where
  nodeType : NodeType
  name : String
  value : String
  deriving DecidableEq

/-- What is asked of a named query. -/
structure QueryRequest where
  /-- The uuid or name of the query. -/
  query : String
  startFilters : List PropertyFilter := []
  secondary : Option SecondaryFilter := none
  deriving DecidableEq

/-- A secondary filter from the data format; all its fields must be given. -/
def SecondaryFilter.ofJson? (j : Json) : Option SecondaryFilter := do
  let fs ← Json.fields? ["node_type", "property_name", "property_value"] j
  let nodeType ← Json.required Json.text? "node_type" fs
  let name ← Json.required Json.text? "property_name" fs
  let value ← Json.required Json.text? "property_value" fs
  some ⟨nodeType, name, value⟩

/-- A request from the data format; only the query must be given. -/
def QueryRequest.ofJson? (j : Json) : Option QueryRequest := do
  let fs ← Json.fields? ["query", "start_filters", "secondary_filter"] j
  let query ← Json.required Json.text? "query" fs
  let filters ← Json.optional (Json.list? (Json.pair? Json.text? Json.text?))
    "start_filters" [] fs
  let secondary ← Json.optional (Json.nullable? SecondaryFilter.ofJson?)
    "secondary_filter" none fs
  some ⟨query, filters, secondary⟩

/-! ## Directives at work -/

/-- The properties of a vertex that a list names. -/
def Vertex.picked (v : Vertex) (names : List String) : List (String × Property) :=
  names.filterMap fun n => (v.property? n).map (n, ·)

/-- The properties a lookup joins in at a node: those of the first vertex, by
id, whose property agrees with the node's text. -/
def RelatedLookup.found (g : Graph) (l : RelatedLookup) (v : Vertex) : List (String × Property) :=
  if l.sourceType ≠ v.nodeType then []
  else match v.text? l.sourceProperty with
    | none => []
    | some value => match g.find l.targetType [(l.targetProperty, value)] with
      | [] => []
      | target :: _ =>
        (target.picked l.collect).map fun (n, p) => (l.targetType ++ "." ++ n, p)

/-- What a directive does to a node. -/
def Directive.decorate (g : Graph) (d : Directive) (n : ResultNode) : ResultNode :=
  { n with
    doNotOutput := d.element.doNotOutput
    propertyLimit := d.element.propertyLimit
    overrides := n.overrides.putAll (n.vertex.picked d.element.collect)
    extras := n.extras.putAll (d.lookups.flatMap (·.found g n.vertex)) }

/-- Whether a vertex passes every constraint. -/
def Directive.admits (d : Directive) (v : Vertex) : Bool := d.constraints.all (·.holds v)

/-- The hook that applies the directive of each trail. -/
def QueryTopology.hook (q : QueryTopology) : Hook Unit := fun g n s =>
  match q.directives.get? n.trail with
  | none => (.ok (.expand, n), s)
  | some d => (.ok (if d.admits n.vertex then .expand else .drop, d.decorate g n), s)

/-! ## Evaluation -/

/-- The start vertices of a request, by rising id. -/
def QueryTopology.starts (q : QueryTopology) (g : Graph) (filters : List PropertyFilter) :
    List Vertex :=
  (g.find q.topology.root.nodeType filters).filter q.topology.root.fits

/-- Run a compiled named query. -/
def QueryTopology.evaluate (g : Graph) (ctx : Context) (q : QueryTopology) (r : QueryRequest) :
    Outcome (List ResultTree) :=
  match q.starts g r.startFilters with
  | [] => .error (.noStartVertex q.topology.root.render)
  | starts => do
    let trees ← (collectAll g ctx q.topology q.hook starts { hook := () }).1
    let results := ResultTree.collapseAll trees
    .ok (match r.secondary with
      | some f => results.filter (·.anyMatches f.nodeType f.name f.value)
      | none => results)

/-- Find, compile and run a named query. -/
def evaluateQuery (g : Graph) (ctx : Context) (r : QueryRequest) : Outcome (List ResultTree) := do
  let query ← NamedQuery.find g r.query
  let compiled ← QueryTopology.ofQuery g ctx query
  compiled.evaluate g ctx r

end Inventory
