import Roadworks.Network.DisjointSet
import Roadworks.Plane.Grid
/-!
Merging points that lie near each other. Nearness is passed on along chains; after that the
centroids of the clusters are compared in the same way, until no two of them are near.
-/

namespace Roadworks

/-- Points by cluster. -/
structure Clustering (α : Type) where
  /-- The cluster of every point. -/
  assignment : List Nat
  /-- The mean position of every cluster, in the order of their first points. -/
  centroids : List (Vec α)

variable {α : Type} [Scalar α]

/-- The points of the grid within `tolerance` of `p`. -/
def Grid.near (g : Grid α) (tolerance : α) (points : List (Vec α)) (p : Vec α) : List Nat :=
  (g.candidates p).filter fun j => points[j]?.any fun q => decide (q.dist p ≤ tolerance)

/-- The pairs of near points among `rest`, which starts at number `i`, and those before it. -/
def nearPairsFrom (tolerance : α) (points : List (Vec α)) (g : Grid α) (i : Nat) :
    List (Vec α) → List (Nat × Nat)
  | [] => []
  | p :: rest =>
    (g.near tolerance points p).map (i, ·) ++
      nearPairsFrom tolerance points (g.insert i p) (i + 1) rest

/-- The pairs of points within `tolerance` of each other, as far as the grid of that cell size
shows them: a later point first, with every earlier one that it is near to. -/
def nearPairs (tolerance : α) (points : List (Vec α)) : List (Nat × Nat) :=
  nearPairsFrom tolerance points (.empty tolerance) 0 points

namespace Clustering

/-- The mean of points. -/
def centroid (points : List (Vec α)) : Vec α :=
  points.foldl (· + ·) .zero / (Nat.cast points.length : α)

/-- The roots of all points. -/
def rootsOf (sets : DisjointSet) (points : List (Vec α)) : List Nat :=
  (List.range points.length).map sets.root

/-- The points whose root is `r`. -/
def members (roots : List Nat) (points : List (Vec α)) (r : Nat) : List (Vec α) :=
  ((roots.zip points).filter (·.1 == r)).map (·.2)

/-- Numbers the roots in the order of their first points, and takes the means of their points. -/
def ofRoots (roots : List Nat) (points : List (Vec α)) : Clustering α :=
  let leaders := roots.eraseDups
  ⟨roots.map fun r => leaders.idxOf r, leaders.map fun r => centroid (members roots points r)⟩

/-- Joins clusters with near centroids until a pass joins none. A pass that joins leaves fewer
clusters, so there are no more passes than points. -/
def settle (fuel : Nat) (tolerance : α) (points : List (Vec α)) (sets : DisjointSet) :
    Clustering α :=
  let roots := rootsOf sets points
  let clusters := ofRoots roots points
  match fuel with
  | 0 => clusters
  | fuel + 1 =>
    let leaders := roots.eraseDups
    let pairs := (nearPairs tolerance clusters.centroids).map fun (i, j) =>
      (leaders.getD i 0, leaders.getD j 0)
    match sets.joinAll pairs with
    | (true, joined) => settle fuel tolerance points joined
    | (false, _) => clusters

end Clustering

/-- Groups points so that any two within `tolerance` share a cluster and no two centroids are that
near to each other. -/
@[irreducible]
def clusterPoints (tolerance : α) (points : List (Vec α)) : Clustering α :=
  let sets := DisjointSet.new points.length
  Clustering.settle (points.length + 1) tolerance points
    (sets.joinAll (nearPairs tolerance points)).2

end Roadworks
