/-!
# Trees as text

A tree is drawn with one node per line and edges in front. The lines of a value after its first
one continue the edges of the node and of the nodes above it; the value of the root stands as it
is.
-/

namespace Dalvik.Text

/-- A value with subtrees. -/
inductive Tree where
  | node (value : String) (children : List Tree)

namespace Tree

/-- A node without subtrees. -/
def leaf (value : String) : Tree := node value []

/-- What stands below a node, in front of the nodes under it. -/
def under (last : Bool) : String := if last then "    " else "│   "

/-- The edge in front of a node. -/
def edge (last : Bool) : String := if last then "└── " else "├── "

/-- The text `s` with `margin` in front of every line but the first. -/
def continued (margin : String) (s : String) : String :=
  String.join (s.toList.map fun c => if c = '\n' then "\n" ++ margin else c.toString)

mutual

/-- The pieces of the drawing of a node behind `margin`; `last` tells whether it is the last one
under its parent. -/
def draw (margin : String) (last : Bool) : Tree → List String
  | node value children =>
    let inner := margin ++ under last
    (margin ++ edge last ++ continued inner value ++ "\n") :: drawAll inner children

/-- The pieces of the drawing of the nodes under one parent. -/
def drawAll (margin : String) : List Tree → List String
  | [] => []
  | [t] => draw margin true t
  | t :: u :: rest => draw margin false t ++ drawAll margin (u :: rest)

end

/-- The drawing of a whole tree. -/
def render : Tree → String
  | node value children => value ++ "\n" ++ String.join (drawAll "" children)

end Tree

end Dalvik.Text
