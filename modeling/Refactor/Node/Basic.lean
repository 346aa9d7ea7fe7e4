import Refactor.Marker.Basic
import Refactor.Tree.Labelled

/-!
Nodes. A `Tree` is content only. A `Node` is a tree of objects: each of its nodes has a stamp, given
out when it was made and kept as it is passed on, so two nodes are one object exactly if they have
one stamp. Sets of markers are objects too, and all sets that were empty from the start are one.
-/

namespace Refactor

/-- The identity of a node as a site in the source, which copies of the node keep. -/
inductive NodeId where
  | given (value : UInt64)
  | minted (number : Nat)
  deriving DecidableEq, Inhabited

namespace NodeId

/-- As a number of 128 bits. -/
def value : NodeId → Nat
  | given v => v.toNat
  | minted n => 0x10000000000000000 + n

/-- Thirty-two hexadecimal digits in groups of 8, 4, 4, 4 and 12. -/
def text (id : NodeId) : String :=
  let digits := Nat.toDigits 16 id.value
  let padded := List.replicate (32 - digits.length) '0' ++ digits
  String.ofList (padded.take 8 ++ ['-'] ++ (padded.drop 8).take 4 ++ ['-'] ++
    (padded.drop 12).take 4 ++ ['-'] ++ (padded.drop 16).take 4 ++ ['-'] ++ padded.drop 20)

/-- The number, or a word for an id that was made up. -/
def toJson : NodeId → Json
  | given v => .number (.integer v.toNat)
  | minted _ => .string "new"

end NodeId

/-- What every node has beside its shape: identity, the white space and comments before it, and
markers. -/
structure Header where
  id : NodeId
  leading : String := ""
  markers : List Marker := []
  deriving DecidableEq, Inhabited

/-- The content of a syntax tree. -/
abbrev Tree := Labelled Header

/-- Every marker in the tree with the id of the node it is on, in pre-order. -/
def Tree.collectMarkers (t : Tree) : List (NodeId × Marker) :=
  t.descendants.flatMap fun d => d.label.markers.map (d.label.id, ·)

/-- A set of markers as an object. -/
structure MarkerSet where
  stamp : Nat
  entries : List Marker
  deriving Inhabited

/-- The one set that all nodes without markers share. -/
def MarkerSet.empty : MarkerSet := ⟨0, []⟩

structure Label where
  stamp : Nat
  id : NodeId
  leading : String
  markers : MarkerSet
  deriving Inhabited

def Label.header (l : Label) : Header := ⟨l.id, l.leading, l.markers.entries⟩

/-- A syntax tree of objects. -/
abbrev Node := Labelled Label

namespace Node

def content (n : Node) : Tree := n.map Label.header

/-- The two are one object. -/
def same (a b : Node) : Bool := a.label.stamp = b.label.stamp

/-- The nodes of the tree, in pre-order, that are no objects of the earlier one. -/
def rebuiltFrom (n earlier : Node) : List Node :=
  let stamps := earlier.descendants.map (·.label.stamp)
  n.descendants.filter (·.label.stamp ∉ stamps)

end Node

end Refactor
