import Inventory.Graph.Snapshot
import Inventory.Json.Reader
import Inventory.Json.Writer

/-!
# Storage — stores and their operations

A store keeps vertices and edges by id. Two backends keep them: one in memory,
one durable. They agree on single changes; a batch is carried out step by step
in memory and as one transaction in the durable backend. The durable backend
keeps the written form of every entry: it saves whatever can be written, and
fails when it comes to read a form that no value has.
-/

namespace Inventory

/-! ## Operations -/

/-- What a store is asked to do. -/
inductive StoreOperation where
  | saveVertex (v : Vertex)
  | getVertex (id : VertexId)
  | allVertices
  | deleteVertex (id : VertexId)
  | saveEdge (e : Edge)
  | edgesFor (id : VertexId)
  | allEdges
  | deleteEdge (id : EdgeId)
  | clear
  | saveVertices (vs : List Vertex)
  | deleteVertices (ids : List VertexId)
  | saveEdges (es : List Edge)
  | saveGraph (g : Graph)
  | loadGraph

/-- What a store answers. -/
inductive StoreAnswer where
  | done
  | vertex (v : Option Vertex)
  | vertices (vs : List Vertex)
  | edges (es : List Edge)
  | graph (g : Graph)
  deriving DecidableEq

/-- Why a store refuses. -/
inductive StoreError where
  | vertexNotFound (id : VertexId)
  | inconsistent (e : Error)
  /-- An entry has a form that cannot be read. -/
  | unreadable
  deriving DecidableEq

/-- The refusal in words. Of an entry that cannot be read the place in its form,
which the store also names, is left out. -/
def StoreError.message : StoreError → String
  | .vertexNotFound id => "Vertex not found: " ++ id
  | .inconsistent e => "Stored graph is inconsistent: " ++ e.message
  | .unreadable =>
    "Serialization error: data did not match any variant of untagged enum PropertyValue"

/-- The word for a refusal in the data format. -/
def StoreError.name : StoreError → String
  | .vertexNotFound _ => "VertexNotFound"
  | .inconsistent _ => "Graph"
  | .unreadable => "Serialization"

/-- Name and message of a refusal. -/
def StoreError.toJson (e : StoreError) : Json :=
  .obj [("error", .str e.name), ("message", .str e.message)]

/-! ## Stores -/

/-- What is stored. -/
structure Store where
  vertices : Table Vertex := ∅
  edges : Table Edge := ∅
  deriving DecidableEq

namespace Store

/-- Put a vertex in the place of the one of its id. -/
def putVertex (s : Store) (v : Vertex) : Store := { s with vertices := s.vertices.put v.id v }

/-- Put an edge in the place of the one of its id, wherever it ends. -/
def putEdge (s : Store) (e : Edge) : Store := { s with edges := s.edges.put e.id e }

/-- The end of an edge that is not stored, the out end first. -/
def missingEnd? (s : Store) (e : Edge) : Option VertexId :=
  [e.outId, e.inId].find? fun id => !s.vertices.contains id

/-- Put an edge whose ends are stored. -/
def saveEdge (s : Store) (e : Edge) : Except StoreError Store :=
  match s.missingEnd? e with
  | some id => .error (.vertexNotFound id)
  | none => .ok (s.putEdge e)

/-- Take vertices away, with every edge at one of them. -/
def dropVertices (s : Store) (ids : List VertexId) : Store :=
  { vertices := s.vertices.filter fun id _ => !ids.contains id
    edges := s.edges.filter fun _ e => !ids.contains e.outId && !ids.contains e.inId }

end Store

/-! ## Kept values -/

/-- A double as it is read back from its written form. Where there is no number to
read, the double stands for its form, which is `null` and cannot be read. -/
def rereadReal (x : Float) : Property :=
  match Json.parse (Property.toJson (.real x)).compact with
  | some (.num n) => Property.ofNumber n
  | _ => .real x

/-- A property as it is read back from its written form; one that cannot be read
stays, and still cannot be read. -/
def Property.reread : Property → Property
  | .real x => rereadReal x
  | p => p

/-! ## Backends -/

/-- The two ways to keep a store. -/
inductive Backend where
  | memory
  | durable
  deriving DecidableEq

namespace Backend

/-- The form in which properties are kept; the durable backend keeps text. -/
def kept : Backend → Properties → Properties
  | .memory, ps => ps
  | .durable, ps => ps.map Property.reread

/-- Whether kept properties can be read; in memory nothing has to be. -/
def reads : Backend → Properties → Bool
  | .memory, _ => true
  | .durable, ps => ps.values.all Property.isReadable

/-! ### Reading -/

/-- Entries that are read, all or none. -/
def readAll {α : Type} (b : Backend) (properties : α → Properties) (entries : List α) :
    Except StoreError (List α) :=
  if entries.all fun x => b.reads (properties x) then .ok entries else .error .unreadable

/-- All vertices. -/
def vertices (b : Backend) (s : Store) : Except StoreError (List Vertex) :=
  b.readAll Vertex.properties s.vertices.values

/-- All edges. -/
def edges (b : Backend) (s : Store) : Except StoreError (List Edge) :=
  b.readAll Edge.properties s.edges.values

/-- The vertex of an id, if there is one; no other vertex is read. -/
def vertex? (b : Backend) (s : Store) (id : VertexId) : Except StoreError (Option Vertex) :=
  match s.vertices.get? id with
  | none => .ok none
  | some v => if b.reads v.properties then .ok (some v) else .error .unreadable

/-- The edges at a vertex, for which all edges are read. -/
def edgesFor (b : Backend) (s : Store) (id : VertexId) : Except StoreError (List Edge) :=
  (b.edges s).map fun es => es.filter (·.touches id)

/-- The stored graph: all vertices are read, then all edges, whose ends must be stored. -/
def loadGraph (b : Backend) (s : Store) : Except StoreError Graph := do
  let vs ← b.vertices s
  let es ← b.edges s
  (Graph.ofParts vs es).mapError .inconsistent

/-! ### Saving -/

/-- Save a vertex, which is never read for that. -/
def saveVertex (b : Backend) (s : Store) (v : Vertex) : Store :=
  s.putVertex { v with properties := b.kept v.properties }

/-- Save an edge whose ends are stored. -/
def saveEdge (b : Backend) (s : Store) (e : Edge) : Except StoreError Store :=
  s.saveEdge { e with properties := b.kept e.properties }

/-- Save edges one by one up to the first whose ends are not stored. -/
def saveEdgesUntil (b : Backend) : List Edge → Store → Except StoreError Unit × Store
  | [], s => (.ok (), s)
  | e :: rest, s =>
    match b.saveEdge s e with
    | .ok s => saveEdgesUntil b rest s
    | .error f => (.error f, s)

/-- Save edges: with a look at the ends of each in memory, without one durably. -/
def saveEdges (b : Backend) (es : List Edge) (s : Store) : Except StoreError Unit × Store :=
  match b with
  | .memory => b.saveEdgesUntil es s
  | .durable =>
    (.ok (), es.foldl (fun s e => s.putEdge { e with properties := b.kept e.properties }) s)

/-! ### Deleting -/

/-- Take stored vertices away with the edges at them, for which all edges are read. -/
def dropVertices (b : Backend) (ids : List VertexId) (s : Store) :
    Except StoreError Unit × Store :=
  match b.edges s with
  | .ok _ => (.ok (), s.dropVertices ids)
  | .error e => (.error e, s)

/-- Delete one vertex with the edges at it. -/
def deleteVertex (b : Backend) (id : VertexId) (s : Store) : Except StoreError Unit × Store :=
  if s.vertices.contains id then b.dropVertices [id] s else (.error (.vertexNotFound id), s)

/-- The first id that cannot be removed. In memory a repeated id is removed
once; durably its second removal fails. -/
def missingVertex? (b : Backend) (s : Store) : List VertexId → Option VertexId
  | [] => none
  | id :: rest =>
    if !s.vertices.contains id then some id
    else match b with
      | .memory => missingVertex? b s rest
      | .durable => missingVertex? b { s with vertices := s.vertices.erase id } rest

/-- Delete vertices with the edges at them, all or none. Without ids there is
nothing to do, and nothing is read. -/
def deleteVertices (b : Backend) (ids : List VertexId) (s : Store) :
    Except StoreError Unit × Store :=
  match b.missingVertex? s ids with
  | some id => (.error (.vertexNotFound id), s)
  | none => if ids.isEmpty then (.ok (), s) else b.dropVertices ids s

/-! ### Graphs -/

/-- Replace everything stored by a graph. -/
def saveGraph (b : Backend) (g : Graph) : Except StoreError Unit × Store :=
  let parts := g.snapshot
  b.saveEdges parts.edges (parts.vertices.foldl b.saveVertex {})

/-! ### Operations -/

/-- Carry out one operation. -/
def run (b : Backend) (s : Store) : StoreOperation → Except StoreError StoreAnswer × Store
  | .saveVertex v => (.ok .done, b.saveVertex s v)
  | .getVertex id => ((b.vertex? s id).map .vertex, s)
  | .allVertices => ((b.vertices s).map .vertices, s)
  | .deleteVertex id => let (r, s) := b.deleteVertex id s; (r.map fun _ => .done, s)
  | .saveEdge e =>
    match b.saveEdge s e with
    | .ok s => (.ok .done, s)
    | .error f => (.error f, s)
  | .edgesFor id => ((b.edgesFor s id).map .edges, s)
  | .allEdges => ((b.edges s).map .edges, s)
  | .deleteEdge id => (.ok .done, { s with edges := s.edges.erase id })
  | .clear => (.ok .done, {})
  | .saveVertices vs => (.ok .done, vs.foldl b.saveVertex s)
  | .deleteVertices ids => let (r, s) := b.deleteVertices ids s; (r.map fun _ => .done, s)
  | .saveEdges es => let (r, s) := b.saveEdges es s; (r.map fun _ => .done, s)
  | .saveGraph g => let (r, s) := b.saveGraph g; (r.map fun _ => .done, s)
  | .loadGraph => ((b.loadGraph s).map .graph, s)

/-- Carry out operations one after another; a refused one does not stop the rest. -/
def runAll (b : Backend) : List StoreOperation → Store → List (Except StoreError StoreAnswer) × Store
  | [], s => ([], s)
  | op :: rest, s =>
    let (answer, s) := b.run s op
    let (answers, s) := runAll b rest s
    (answer :: answers, s)

end Backend

end Inventory
