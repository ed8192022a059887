/-
  ValueFlow.Text.Digraph

  Directed graphs written as dot text, one line per vertex and per edge.
-/

namespace ValueFlow

/-- A vertex with its label and further attributes. -/
structure Digraph.Vertex where
  label : String
  attributes : String
deriving DecidableEq, Repr

/-- An edge between two vertices, given by their place; the label may be absent. -/
structure Digraph.Edge where
  source : Nat
  target : Nat
  label : Option String
  attributes : String
deriving DecidableEq, Repr

/-- A graph to be written: vertices are numbered by their place from zero. -/
structure Digraph where
  vertices : List Digraph.Vertex
  edges : List Digraph.Edge
deriving DecidableEq, Repr

namespace Digraph

/-- A label inside double quotes: quotes and backslashes follow a backslash, and a
    line end becomes a left-justified break. -/
def escape (label : String) : String :=
  String.ofList (label.toList.flatMap fun c =>
    if c = '"' then ['\\', '"']
    else if c = '\\' then ['\\', '\\']
    else if c = '\n' then ['\\', 'l']
    else [c])

/-- The bracketed part of a line: the label, if any, then the attributes. -/
def brackets (label : Option String) (attributes : String) : String :=
  match label with
  | some text => "[ label = \"" ++ escape text ++ "\" " ++ attributes ++ "]"
  | none => "[ " ++ attributes ++ "]"

/-- The line of the vertex at a place. -/
def vertexLine (vertex : Vertex) (place : Nat) : String :=
  "    " ++ toString place ++ " " ++ brackets (some vertex.label) vertex.attributes ++ "\n"

/-- The line of an edge. -/
def edgeLine (edge : Edge) : String :=
  "    " ++ toString edge.source ++ " -> " ++ toString edge.target ++ " "
    ++ brackets edge.label edge.attributes ++ "\n"

/-- The whole graph: vertices in order of place, then edges in their own order. -/
def render (graph : Digraph) : String :=
  "digraph \x7b\n"
    ++ String.join (graph.vertices.zipIdx.map fun (vertex, place) => vertexLine vertex place)
    ++ String.join (graph.edges.map edgeLine)
    ++ "\x7d\n"

end Digraph
end ValueFlow
