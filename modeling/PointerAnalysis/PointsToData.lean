import PointerAnalysis.ObjectSet.Basic

/-! Points-to sets in two parts: what is still to be passed on, and what has been. An addition
goes to the pending part unless the propagated part knows it, and a flush moves the pending part
over as a whole. -/
namespace PointerAnalysis

/-- For every key the pending and the propagated part of its set (`DiffPTData`). A key without entry has an
empty part; a flushed key keeps an entry for its empty pending part. -/
structure PointsToData (key : Entity) (S : Type) where
  pending : Std.TreeMap (Id key) S
  propagated : Std.TreeMap (Id key) S

namespace PointsToData

variable {key kind : Entity} {S : Type} [IdSet S kind]

def empty : PointsToData key S := ⟨∅, ∅⟩

def pendingOf (d : PointsToData key S) (p : Id key) : S := d.pending.getD p IdSet.empty

def propagatedOf (d : PointsToData key S) (p : Id key) : S := d.propagated.getD p IdSet.empty

/-- Adds one element to the pending part of a key (`add_pts`); true if neither part knew it. -/
def add (d : PointsToData key S) (p : Id key) (e : Id kind) : PointsToData key S × Bool :=
  if IdSet.contains (d.propagatedOf p) e then (d, false)
  else
    let (set, fresh) := IdSet.insert (d.pendingOf p) e
    ({ d with pending := d.pending.insert p set }, fresh)

/-- Adds the members of a set to the pending part of a key (`union_pts_to`); true if one was in neither
part. -/
def addAll (d : PointsToData key S) (p : Id key) (source : S) : PointsToData key S × Bool :=
  if IdSet.isEmpty source then (d, false)
  else
    let known := d.propagatedOf p
    let fresh := if IdSet.isEmpty known then source else (IdSet.subtract source known).1
    if IdSet.isEmpty fresh then (d, false)
    else
      let (set, changed) := IdSet.union (d.pendingOf p) fresh
      ({ d with pending := d.pending.insert p set }, changed)

def hasPending (d : PointsToData key S) (p : Id key) : Bool := !IdSet.isEmpty (d.pendingOf p)

/-- Moves the pending part of a key over to the propagated part and returns it. -/
def flush (d : PointsToData key S) (p : Id key) : PointsToData key S × S :=
  let delta := d.pendingOf p
  if IdSet.isEmpty delta then (d, IdSet.empty)
  else
    ({ pending := d.pending.insert p IdSet.empty
       propagated := d.propagated.insert p (IdSet.union (d.propagatedOf p) delta).1 },
     delta)

/-- How many pairs of a key and an element have been propagated (`num_pts_relations`). -/
def relations (d : PointsToData key S) : Nat :=
  d.propagated.foldl (fun total _ set => total + IdSet.count set) 0

end PointsToData

end PointerAnalysis
