import Refactor.Node.Basic

/-!
Making nodes. Stamps and ids come from a supply that is threaded through everything that makes
objects. Each edit keeps the node it is given if nothing has to change, or says that it always
makes a new one.
-/

namespace Refactor

/-- The next stamp to be given out, and the ids that are yet to be made up, in their order. -/
structure Supply where
  stamp : Nat := 1
  ids : Nat → Nat := fun i => i
  deriving Inhabited

abbrev Alloc := StateM Supply

def Alloc.stamp : Alloc Nat := fun s => (s.stamp, { s with stamp := s.stamp + 1 })

def Alloc.mint : Alloc NodeId := fun s => (.minted (s.ids 0), { s with ids := fun i => s.ids (i + 1) })

namespace MarkerSet

def make (entries : List Marker) : Alloc MarkerSet := do
  let stamp ← Alloc.stamp
  pure ⟨stamp, entries⟩

/-- The set itself if it has the marker already. -/
def addIfAbsent (set : MarkerSet) (m : Marker) : Alloc MarkerSet :=
  if m.isIn set.entries then pure set else make (set.entries ++ [m])

/-- The set itself if it has no marker of that source. -/
def removeSource (set : MarkerSet) (source : String) : Alloc MarkerSet :=
  if set.entries.any (·.source = source) then make (set.entries.filter (·.source ≠ source))
  else pure set

def ofList (ms : List Marker) : Alloc MarkerSet := ms.foldlM addIfAbsent empty

end MarkerSet

namespace Node

/-- A new object. -/
def make (id : NodeId) (leading : String) (markers : MarkerSet) (shape : Shape Node) :
    Alloc Node := do
  let stamp ← Alloc.stamp
  pure (.mk ⟨stamp, id, leading, markers⟩ shape)

/-- A new object of the same header. -/
def withShape (n : Node) (shape : Shape Node) : Alloc Node :=
  make n.label.id n.label.leading n.label.markers shape

/-- A new object, all else equal. -/
def copy (n : Node) : Alloc Node := n.withShape n.shape

/-- A new object with other white space before it. -/
def withLeading (n : Node) (leading : String) : Alloc Node :=
  make n.label.id leading n.label.markers n.shape

/-- The node with that white space before it, itself if that is so already. -/
def lead (n : Node) (leading : String) : Alloc Node :=
  if n.label.leading = leading then pure n else n.withLeading leading

/-- The node with that set of markers, itself if it has the set already. -/
def withMarkers (n : Node) (set : MarkerSet) : Alloc Node :=
  if n.label.markers.stamp = set.stamp then pure n
  else make n.label.id n.label.leading set n.shape

/-- The node with the marker, itself if the marker is there. -/
def mark (n : Node) (m : Marker) : Alloc Node := do
  n.withMarkers (← n.label.markers.addIfAbsent m)

/-- The node without the markers of that source, itself if there are none. -/
def unmark (n : Node) (source : String) : Alloc Node := do
  n.withMarkers (← n.label.markers.removeSource source)

/-- A new object with the header of the donor. -/
def withHeaderOf (n donor : Node) : Alloc Node :=
  make donor.label.id donor.label.leading donor.label.markers n.shape

end Node

/-- The label of a node that is yet to be made: without an id it gets one made up. -/
structure DraftHeader where
  id : Option NodeId := none
  leading : String := ""
  markers : List Marker := []
  deriving Inhabited

/-- A tree that is yet to be made. -/
abbrev Draft := Labelled DraftHeader

/-- Makes every node of the draft, children first. -/
def Draft.place (d : Draft) : Alloc Node :=
  d.fold fun d s => do
    let children ← s.children.mapM id
    let id ← d.label.id.elim Alloc.mint pure
    let markers ← MarkerSet.ofList d.label.markers
    Node.make id d.label.leading markers (s.withChildren children)

end Refactor
