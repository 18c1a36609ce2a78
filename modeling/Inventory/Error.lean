import Inventory.Vertex
import Inventory.Text.Quoted

/-!
# Error — what can go wrong

Each cause is a constructor with the facts it names; `message` is the one place
where it is put into words, and `kind` groups causes by what a caller does
about them.
-/

namespace Inventory

/-! ## Definitions -/

/-- What is wrong with a definition that is read from the graph. -/
inductive DefinitionFault where
  /-- An edge that must be there is missing. -/
  | noEdge (id : VertexId) (label : String)
  /-- There is more than one edge where one is expected. -/
  | severalEdges (id : VertexId) (count : Nat) (label : String)
  | wrongType (id : VertexId) (found expected : NodeType)
  | lacks (nodeType : NodeType) (id : VertexId) (property : String)
  | unnamedWidget (id : VertexId) (property : String)
  | unknownModelType (text : String)
  | repeatedModel (modelId modelVersion : String) (count : Nat)
  | emptyLinkage (text : String)
  /-- A vertex of this type has no place in a model. -/
  | misplaced (nodeType : NodeType) (id : VertexId)
  | unknownConstraint (text : String)
  | unknownPropertyLimit (text : String)
  | ambiguousQuery (query : String) (count : Nat)
  /-- A fault in free words. -/
  | stated (text : String)
  deriving DecidableEq

/-- The fault in words, without the definition it lies in. -/
def DefinitionFault.message : DefinitionFault → String
  | .noEdge id label => id ++ " has no " ++ label ++ " edge"
  | .severalEdges id n label =>
    id ++ " has " ++ toString n ++ " " ++ label ++ " edges, expected one"
  | .wrongType id found expected => id ++ " is a " ++ found ++ ", expected " ++ expected
  | .lacks nodeType id property => nodeType ++ " " ++ id ++ " lacks " ++ property
  | .unnamedWidget id property => "widget model " ++ id ++ " lacks " ++ property
  | .unknownModelType text => "unknown model-type: " ++ text
  | .repeatedModel id version n =>
    "model " ++ id ++ " version " ++ version ++ " is defined " ++ toString n ++ " times"
  | .emptyLinkage text => "empty linkage point: " ++ Text.quoted text
  | .misplaced nodeType id => nodeType ++ " cannot appear in a model topology (" ++ id ++ ")"
  | .unknownConstraint text => "unknown constraint-type: " ++ text
  | .unknownPropertyLimit text => "unknown property-limit-desc: " ++ text
  | .ambiguousQuery query n => query ++ " matches " ++ toString n ++ " named queries"
  | .stated text => text

/-! ## Errors -/

/-- What a caller decides on. -/
inductive ErrorKind where
  /-- Rules or definitions are missing or contradict each other. -/
  | configuration
  | notFound
  /-- A budget of depth, results or time is used up. -/
  | limitExceeded
  /-- What was to be removed is not there as expected. -/
  | partialDelete
  | internal
  deriving DecidableEq

/-- The word for a kind in the data format. -/
def ErrorKind.name : ErrorKind → String
  | .configuration => "Configuration"
  | .notFound => "NotFound"
  | .limitExceeded => "LimitExceeded"
  | .partialDelete => "PartialDelete"
  | .internal => "Internal"

/-- Why an operation on a graph fails. -/
inductive Error where
  | missingEdgeRule (a b : NodeType)
  | conflictingEdgeRule (source target : NodeType)
  | invalidModel (fault : DefinitionFault)
  | invalidNamedQuery (fault : DefinitionFault)
  /-- A definition element is reachable from itself. -/
  | modelCycle (element : VertexId)
  | modelTooDeep (max : Nat)
  | rootTypeMismatch (expected found : NodeType)
  | configuration (reason : String)
  | vertexNotFound (id : VertexId)
  | modelNotFound (modelId modelVersion : String)
  | namedQueryNotFound (query : String)
  | noStartVertex (wanted : String)
  | depthExceeded (max : Nat)
  | resultLimitExceeded (max : Nat)
  | timeout (seconds : Nat)
  | resourceVersionMismatch (id : VertexId) (expected found : String)
  | rootAlreadyRemoved (id : VertexId)
  | internal (reason : String)
  deriving DecidableEq

namespace Error

/-- The error in words, as a user sees it. -/
def message : Error → String
  | .missingEdgeRule a b => "No edge rule defined between " ++ a ++ " and " ++ b
  | .conflictingEdgeRule a b => "Contradictory edge rules for " ++ a ++ "|" ++ b
  | .invalidModel f => "Invalid model definition: " ++ f.message
  | .invalidNamedQuery f => "Invalid named query definition: " ++ f.message
  | .modelCycle element => "Model element " ++ element ++ " is reachable from itself"
  | .modelTooDeep max => "Model definition nests deeper than " ++ toString max ++ " levels"
  | .rootTypeMismatch expected found =>
    "Root vertex has node type " ++ found ++ ", topology starts at " ++ expected
  | .configuration reason => "Configuration error: " ++ reason
  | .vertexNotFound id => "Vertex not found: " ++ id
  | .modelNotFound id version => "Model not found: " ++ id ++ " version " ++ version
  | .namedQueryNotFound query => "Named query not found: " ++ query
  | .noStartVertex wanted => "No start vertex found for " ++ wanted
  | .depthExceeded max => "Traversal exceeded " ++ toString max ++ " levels"
  | .resultLimitExceeded max => "Result set exceeded " ++ toString max ++ " nodes"
  | .timeout seconds => "Query timed out after " ++ toString seconds ++ " seconds"
  | .resourceVersionMismatch id expected found =>
    "Resource version mismatch on " ++ id ++ ": expected " ++ expected ++ ", found " ++ found
  | .rootAlreadyRemoved id => "Root vertex " ++ id ++ " is already gone"
  | .internal reason => "Internal error: " ++ reason

/-- What a caller decides on, whatever the details are. -/
def kind : Error → ErrorKind
  | .missingEdgeRule .. | .conflictingEdgeRule .. | .invalidModel _ | .invalidNamedQuery _
  | .modelCycle _ | .modelTooDeep _ | .rootTypeMismatch .. | .configuration _ => .configuration
  | .vertexNotFound _ | .modelNotFound .. | .namedQueryNotFound _ | .noStartVertex _ => .notFound
  | .depthExceeded _ | .resultLimitExceeded _ | .timeout _ => .limitExceeded
  | .resourceVersionMismatch .. | .rootAlreadyRemoved _ => .partialDelete
  | .internal _ => .internal

/-- Whether something asked for does not exist. -/
def isNotFound (e : Error) : Bool := e.kind == .notFound

/-! ## Data format -/

/-- The word for an error in the data format. -/
def name : Error → String
  | .missingEdgeRule .. => "MissingEdgeRule"
  | .conflictingEdgeRule .. => "ConflictingEdgeRule"
  | .invalidModel _ => "InvalidModel"
  | .invalidNamedQuery _ => "InvalidNamedQuery"
  | .modelCycle _ => "ModelCycle"
  | .modelTooDeep _ => "ModelTooDeep"
  | .rootTypeMismatch .. => "RootTypeMismatch"
  | .configuration _ => "Configuration"
  | .vertexNotFound _ => "VertexNotFound"
  | .modelNotFound .. => "ModelNotFound"
  | .namedQueryNotFound _ => "NamedQueryNotFound"
  | .noStartVertex _ => "NoStartVertex"
  | .depthExceeded _ => "DepthExceeded"
  | .resultLimitExceeded _ => "ResultLimitExceeded"
  | .timeout _ => "Timeout"
  | .resourceVersionMismatch .. => "ResourceVersionMismatch"
  | .rootAlreadyRemoved _ => "RootAlreadyRemoved"
  | .internal _ => "Internal"

/-- Name, kind and message of an error, and whether something was not found. -/
def toJson (e : Error) : Json :=
  .obj [("error", .str e.name), ("kind", .str e.kind.name), ("message", .str e.message),
    ("not_found", .bool e.isNotFound)]

end Error

/-- The outcome of a computation that may fail. -/
abbrev Outcome (α : Type) := Except Error α

end Inventory
