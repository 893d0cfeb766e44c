import Mathlib.Data.List.Permutation
import Mathlib.Data.List.Sort
import Roadworks.Network.Intersection
import Roadworks.Proofs.Exact.Reals
/-! # Intersections do not depend on the order of their roads

Evenness is judged on sorted headings, and the angle of two directions is the same both ways. -/

namespace Roadworks

namespace Vec

theorem dot_comm (v w : Vec ℝ) : v.dot w = w.dot v := by
  rw [dot, dot, mul_comm v.x, mul_comm v.y]

theorem angleTo_comm (v w : Vec ℝ) : v.angleTo w = w.angleTo v := by
  rw [angleTo, angleTo, dot_comm, mul_comm v.norm]

end Vec

theorem mergeSort_eq_of_perm {l m : List ℝ} (h : l.Perm m) :
    l.mergeSort (fun a b => decide (a ≤ b)) = m.mergeSort fun a b => decide (a ≤ b) := by
  have hsorted (l : List ℝ) :
      (l.mergeSort fun a b => decide (a ≤ b)).Pairwise fun a b => decide (a ≤ b) = true := by
    refine List.pairwise_mergeSort ?_ ?_ l
    · intro a b c hab hbc
      have := le_trans (of_decide_eq_true hab) (of_decide_eq_true hbc)
      exact decide_eq_true this
    · intro a b
      simpa using le_total a b
  refine List.Perm.eq_of_pairwise ?_ (hsorted l) (hsorted m) ?_
  · intro a b _ _ hab hba
    exact le_antisymm (of_decide_eq_true hab) (of_decide_eq_true hba)
  · exact (List.mergeSort_perm l _).trans (h.trans (List.mergeSort_perm m _).symm)

namespace JunctionRules

variable {rules : JunctionRules ℝ} {l m : List (Vec ℝ)}

theorem isPass_comm (v w : Vec ℝ) : rules.isPass v w = rules.isPass w v := by
  rw [isPass, isPass, Vec.angleTo_comm]

theorem isCircular_perm (h : l.Perm m) : rules.isCircular l = rules.isCircular m := by
  unfold isCircular
  rw [mergeSort_eq_of_perm (h.map Vec.heading)]

/-- The kind of an intersection is the same in whatever order its roads are listed. -/
theorem classify_perm (h : l.Perm m) : rules.classify l = rules.classify m := by
  unfold classify
  rw [h.length_eq, isCircular_perm h]
  split
  · rfl
  · split
    · rfl
    · match l, m, h, h.length_eq with
      | [], [], _, _ => rfl
      | [_], [_], _, _ => rfl
      | [v, w], [v', w'], h, _ =>
          rcases List.pair_perm.mp h with heq | heq
          · obtain ⟨rfl, rfl⟩ : v' = v ∧ w' = w := by simpa using heq
            rfl
          · obtain ⟨rfl, rfl⟩ : v' = w ∧ w' = v := by simpa using heq
            simp only [isPass_comm]
      | [_, _, _], [_, _, _], _, _ => rfl
      | [_, _, _, _], [_, _, _, _], _, _ => rfl
      | _ :: _ :: _ :: _ :: _ :: _, _ :: _ :: _ :: _ :: _ :: _, _, _ => rfl

end JunctionRules

end Roadworks
