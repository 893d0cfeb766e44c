import Roadworks.Proofs.Assembly.Stages
/-! # The order of nodes

Nodes are numbered like their clusters, in the order of the first ends that fall into them. Where no
segment shrinks, the first end in a cluster belongs to a kept segment, so the kept segments alone
tell the order. -/

namespace Roadworks

/-! ## Values in the order of their first occurrence -/

theorem eraseDups_concat {β : Type} [BEq β] [LawfulBEq β] (l : List β) (a : β) :
    (l ++ [a]).eraseDups = if l.contains a then l.eraseDups else l.eraseDups ++ [a] := by
  rw [List.eraseDups_append]
  by_cases h : a ∈ l
  · simp [List.removeAll, h]
  · simp [List.removeAll, h, List.eraseDups_cons]

/-- Values that are listed already occur nowhere first. -/
theorem eraseDups_append_append {β : Type} [BEq β] [LawfulBEq β] {l m : List β} (h : m ⊆ l)
    (rest : List β) : (l ++ m ++ rest).eraseDups = (l ++ rest).eraseDups := by
  have hm : m.removeAll l = [] := by
    simpa [List.removeAll] using fun a ha => h ha
  have hrest : rest.removeAll (l ++ m) = rest.removeAll l := by
    apply List.filter_congr
    intro a _
    have hmem : a ∈ l ++ m ↔ a ∈ l := by
      simpa using fun ha => h ha
    simp [hmem]
  rw [List.eraseDups_append, List.eraseDups_append, List.eraseDups_append, hm, hrest]
  simp

theorem mem_map_iff_of_inj {γ : Type} {l : List Nat} {f : Nat → γ} {a : Nat}
    (h : ∀ b ∈ l, f b = f a → b = a) : f a ∈ l.map f ↔ a ∈ l := by
  constructor
  · intro ha
    obtain ⟨b, hb, heq⟩ := List.mem_map.mp ha
    rwa [← h b hb heq]
  · exact List.mem_map_of_mem

/-- Names that stand for the same values occur first in the same places. -/
theorem map_eraseDups_eq {γ : Type} {l m : List Nat} {f g : Nat → γ}
    (hf : ∀ a ∈ l, ∀ b ∈ l, f a = f b → a = b) (hg : ∀ a ∈ m, ∀ b ∈ m, g a = g b → a = b)
    (h : l.map f = m.map g) : l.eraseDups.map f = m.eraseDups.map g := by
  induction l using List.reverseRecOn generalizing m with
  | nil =>
      have hm : m = [] := by simpa using h.symm
      rw [hm]
      rfl
  | append_singleton l a ih =>
      cases m using List.reverseRecOn with
      | nil => simp at h
      | append_singleton m b =>
          rw [List.map_append, List.map_append] at h
          obtain ⟨hlm, hab⟩ := List.append_inj' h rfl
          have hvalue : f a = g b := by simpa using hab
          have ih := ih (fun x hx y hy => hf x (by simp [hx]) y (by simp [hy]))
            (fun x hx y hy => hg x (by simp [hx]) y (by simp [hy])) hlm
          -- A name is listed already when its value is, whichever names are used.
          have hmem : a ∈ l ↔ b ∈ m := by
            rw [← mem_map_iff_of_inj fun x hx => hf x (by simp [hx]) a (by simp),
              ← mem_map_iff_of_inj fun x hx => hg x (by simp [hx]) b (by simp), hlm, hvalue]
          rw [eraseDups_concat, eraseDups_concat]
          by_cases ha : a ∈ l
          · simpa [ha, hmem.mp ha] using ih
          · simpa [ha, hmem.not.mp ha, hvalue] using ih

namespace Placed

variable {α : Type}

/-- The clusters of the two ends of every segment, in order. -/
def corners (segments : List (Placed α)) : List Nat := segments.flatMap fun p => [p.tail, p.head]

theorem corners_append (p q : List (Placed α)) : corners (p ++ q) = corners p ++ corners q :=
  List.flatMap_append

theorem mem_corners_iff {segments : List (Placed α)} {c : Nat} :
    c ∈ corners segments ↔ ∃ p ∈ segments, c ∈ p.ends := by
  simp [corners, ends]

theorem keptOf_cons_none (p : Placed α) (rest : List (Placed α))
    (fates : List (Option DroppedSegment)) :
    keptOf (p :: rest) (none :: fates) = p :: keptOf rest fates := rfl

theorem keptOf_cons_some (p : Placed α) (rest : List (Placed α)) (w : DroppedSegment)
    (fates : List (Option DroppedSegment)) :
    keptOf (p :: rest) (some w :: fates) = keptOf rest fates := rfl

/-- Where no segment shrinks, dropping segments changes nothing about which clusters are met first:
a dropped segment joins clusters that have both been met. -/
theorem eraseDups_corners_keptOf {before rest : List (Placed α)}
    (h : ∀ i, some (.degenerate i) ∉ fates before rest) :
    (corners (before ++ keptOf rest (fates before rest))).eraseDups =
      (corners (before ++ rest)).eraseDups := by
  induction rest generalizing before with
  | nil => rfl
  | cons p rest ih =>
      rw [fates] at h ⊢
      have hrest := ih fun i hi => h i (List.mem_cons_of_mem _ hi)
      have hsplit : before ++ p :: rest = before ++ [p] ++ rest := by simp
      rw [hsplit, ← hrest]
      cases hfate : fate before p with
      | none => rw [keptOf_cons_none, List.append_assoc, List.singleton_append]
      | some w =>
          have hmet : corners [p] ⊆ corners before := by
            rw [fate] at hfate
            split at hfate
            · rw [fate, if_pos ‹_›] at h
              exact absurd List.mem_cons_self (h p.segment.id)
            · obtain ⟨q, hq, _⟩ := Option.map_eq_some_iff.mp hfate
              intro c hc
              rw [mem_corners_iff] at hc ⊢
              obtain ⟨r, hr, hc⟩ := hc
              rw [List.mem_singleton.mp hr, parallel_iff.mp (List.find?_some hq)] at hc
              exact ⟨q, List.mem_of_find?_eq_some hq, hc⟩
          rw [keptOf_cons_some, corners_append, corners_append, corners_append,
            eraseDups_append_append hmet]

end Placed

namespace Clustering

variable {α : Type} [Scalar α]

/-- The numbers of clusters occur first in their order. -/
theorem eraseDups_assignment_clusterPoints (tolerance : α) (points : List (Vec α)) :
    (clusterPoints tolerance points).assignment.eraseDups =
      List.range (clusterPoints tolerance points).centroids.length := by
  obtain ⟨t, _, heq⟩ := exists_settled_clusterPoints_eq tolerance points
  have hleaders : (t.leaders points.length).map (t.leaders points.length).idxOf =
      List.range (t.leaders points.length).length := by
    apply List.ext_getElem (by simp)
    intro k hk _
    rw [List.getElem_map, List.getElem_range, (t.nodup_leaders _).idxOf_getElem]
  have hnames : ((ofSets t points).assignment.map id) =
      ((List.range points.length).map t.root).map (t.leaders points.length).idxOf := by
    rw [List.map_id, assignment_ofSets, List.map_map]
    rfl
  have hinj : ∀ a ∈ (List.range points.length).map t.root,
      ∀ b ∈ (List.range points.length).map t.root,
        (t.leaders points.length).idxOf a = (t.leaders points.length).idxOf b → a = b := by
    intro a ha b _ hab
    obtain ⟨i, hi, rfl⟩ := List.mem_map.mp ha
    exact (List.idxOf_inj (t.root_mem_leaders (List.mem_range.mp hi))).mp hab
  have hrenamed := map_eraseDups_eq (fun _ _ _ _ h => h) hinj hnames
  rw [List.map_id', t.eraseDups_map_root, hleaders] at hrenamed
  rw [heq, hrenamed, centroids_ofSets, List.length_map]

end Clustering

namespace AssemblyOptions

variable {α : Type}

theorem corners_placeSegments {segments : List (RoadSegment α)} {ends : List Nat}
    (h : ends.length = 2 * segments.length) :
    Placed.corners (placeSegments segments ends) = ends := by
  fun_induction placeSegments segments ends with
  | case1 s rest a b ends ih =>
      have hrest := ih (by simp only [List.length_cons] at h; omega)
      rw [Placed.corners, List.flatMap_cons]
      exact congrArg (a :: b :: ·) hrest
  | case2 segments ends hshort =>
      cases segments with
      | nil => exact (List.length_eq_zero_iff.mp h).symm
      | cons s rest =>
          obtain ⟨a, b, ends, rfl⟩ : ∃ a b tail, ends = a :: b :: tail := by
            cases ends with
            | nil => simp only [List.length_cons, List.length_nil] at h; omega
            | cons a ends =>
                cases ends with
                | nil => simp only [List.length_cons, List.length_nil] at h; omega
                | cons b ends => exact ⟨a, b, ends, rfl⟩
          exact absurd rfl (hshort s rest a b ends rfl)

variable [Scalar α] {o : AssemblyOptions α} {segments : List (RoadSegment α)}

/-- Where no segment shrinks, the nodes stand in the order in which the kept segments meet their
clusters. -/
theorem used_eq_eraseDups (h : ∀ i, some (.degenerate i) ∉ o.fates segments) :
    o.used segments = (Placed.corners (o.kept segments)).eraseDups := by
  have hfirst : (Placed.corners (o.kept segments)).eraseDups =
      List.range (o.clusters segments).centroids.length := by
    have hcorners : Placed.corners (o.placed segments) = (o.clusters segments).assignment :=
      corners_placeSegments (o.length_assignment_clusters segments)
    have hkept : (Placed.corners (Placed.keptOf (o.placed segments)
        (Placed.fates [] (o.placed segments)))).eraseDups =
        (Placed.corners (o.placed segments)).eraseDups := by
      simpa only [List.nil_append] using Placed.eraseDups_corners_keptOf h
    rw [kept, fates, hkept, hcorners]
    exact Clustering.eraseDups_assignment_clusterPoints _ _
  rw [hfirst, used, touched, List.filter_eq_self]
  intro c hc
  rw [← hfirst, List.mem_eraseDups, Placed.mem_corners_iff] at hc
  obtain ⟨p, hp, hc⟩ := hc
  exact List.any_eq_true.mpr ⟨p, hp, Placed.touches_iff.mpr hc⟩

end AssemblyOptions

end Roadworks
