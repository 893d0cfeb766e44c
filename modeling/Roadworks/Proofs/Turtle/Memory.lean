import Mathlib.Data.List.Induction
import Roadworks.Turtle
/-! # What the turtle remembers

A pop matches the last push that is still open. Of the states at the open pushes the turtle remembers
the outermost ones, as many as its limit allows, and it counts the others. -/

namespace Roadworks

variable {α : Type}

/-- The operation saves a state. -/
def TurtleOp.pushes : TurtleOp α → Bool
  | .push => true
  | _ => false

/-- The operation goes back to a saved state. -/
def TurtleOp.pops : TurtleOp α → Bool
  | .pop => true
  | _ => false

/-- The positions of the open pushes after an operation at position `k`. -/
def TurtleOp.nest (opened : List Nat) (k : Nat) : TurtleOp α → List Nat
  | .push => k :: opened
  | .pop => opened.tail
  | _ => opened

namespace Interpreter

/-! ## Open pushes -/

/-- The positions of the pushes in a word that are open at its end, the last one first. A pop closes
the last of them; where none is open, it closes nothing. -/
def openPushes (i : Interpreter α) (word : Word) : List Nat :=
  word.zipIdx.foldl (fun opened (c, k) => (i.op c).nest opened k) []

theorem openPushes_concat (i : Interpreter α) (u : Word) (c : Char) :
    i.openPushes (u ++ [c]) = (i.op c).nest (i.openPushes u) u.length := by
  rw [openPushes, List.zipIdx_append, List.foldl_append, ← openPushes]
  simp

/-- Below a push that is still open lie the pushes that were open when it occurred. -/
theorem openPushes_take {i : Interpreter α} {u : Word} {p : Nat} {below : List Nat}
    (h : p :: below <:+ i.openPushes u) :
    (∃ c, u[p]? = some c ∧ i.op c = .push) ∧ i.openPushes (u.take p) = below := by
  induction u using List.reverseRecOn generalizing p below with
  | nil => simp [openPushes] at h
  | append_singleton u c ih =>
      -- An older push lies within `u`, where nothing has changed.
      have holder (hu : p :: below <:+ i.openPushes u) :
          (∃ d, (u ++ [c])[p]? = some d ∧ i.op d = .push) ∧
            i.openPushes ((u ++ [c]).take p) = below := by
        obtain ⟨⟨d, hd, hpush⟩, htake⟩ := ih hu
        have hp : p < u.length := (List.getElem?_eq_some_iff.mp hd).1
        refine ⟨⟨d, by rw [List.getElem?_append_left hp, hd], hpush⟩, ?_⟩
        rw [List.take_append_of_le_length (Nat.le_of_lt hp), htake]
      rw [openPushes_concat] at h
      cases hc : i.op c with
      | push =>
          rw [hc, TurtleOp.nest, List.suffix_cons_iff] at h
          rcases h with heq | hu
          · obtain ⟨rfl, rfl⟩ := List.cons.inj heq
            refine ⟨⟨c, List.getElem?_concat_length, hc⟩, ?_⟩
            rw [List.take_left]
          · exact holder hu
      | pop =>
          rw [hc, TurtleOp.nest] at h
          exact holder (h.trans (List.tail_suffix _))
      | draw | move | turn _ | turnAround | setStyle _ | ignore =>
          rw [hc] at h
          exact holder h

theorem lt_length_of_mem_openPushes {i : Interpreter α} {u : Word} {p : Nat}
    (hp : p ∈ i.openPushes u) : p < u.length := by
  obtain ⟨above, below, hsplit⟩ := List.append_of_mem hp
  have hsuffix : p :: below <:+ i.openPushes u := ⟨above, hsplit.symm⟩
  obtain ⟨⟨c, hc, _⟩, _⟩ := openPushes_take hsuffix
  exact (List.getElem?_eq_some_iff.mp hc).1

/-! ## The memory after a word -/

variable [Scalar α]

/-- The walk holds the states at the outermost open pushes of a word, up to its limit, and counts the
other open pushes. -/
structure Remembers (i : Interpreter α) (u : Word) (w : Walk α) : Prop where
  stack_eq : w.stack = ((i.openPushes u).drop ((i.openPushes u).length - i.maxStackDepth)).map
    fun p => (i.walk i.begin (u.take p)).turtle
  dropped_eq : w.dropped = (i.openPushes u).length - i.maxStackDepth

theorem Remembers.length_stack {i : Interpreter α} {u : Word} {w : Walk α} (h : i.Remembers u w) :
    w.stack.length = min (i.openPushes u).length i.maxStackDepth := by
  rw [h.stack_eq, List.length_map, List.length_drop]
  omega

/-- The states at open pushes do not change when the word goes on. -/
theorem map_turtle_take_append {i : Interpreter α} {u : Word} {opened : List Nat}
    (hopened : opened ⊆ i.openPushes u) (v : Word) :
    (opened.map fun p => (i.walk i.begin ((u ++ v).take p)).turtle) =
      opened.map fun p => (i.walk i.begin (u.take p)).turtle := by
  refine List.map_congr_left fun p hp => ?_
  have hlt := lt_length_of_mem_openPushes (hopened hp)
  rw [List.take_append_of_le_length (Nat.le_of_lt hlt)]

/-- A push adds its state where there is room, and is counted otherwise. -/
theorem Remembers.push {i : Interpreter α} {u : Word} {c : Char}
    (h : i.Remembers u (i.walk i.begin u)) (hc : i.op c = .push) :
    i.Remembers (u ++ [c]) (i.advance (i.walk i.begin u) .push) := by
  have hlength := h.length_stack
  obtain ⟨hstack, hdropped⟩ := h
  have hopen : i.openPushes (u ++ [c]) = u.length :: i.openPushes u := by
    rw [openPushes_concat, hc, TurtleOp.nest]
  rw [advance]
  split
  · next hroom =>
      have hzero : (i.openPushes u).length - i.maxStackDepth = 0 := by omega
      have hzero' : (i.openPushes u).length + 1 - i.maxStackDepth = 0 := by omega
      refine ⟨?_, by rw [hopen, List.length_cons, hdropped, hzero, hzero']⟩
      rw [hstack, hopen, List.length_cons, hzero, hzero', List.drop_zero, List.drop_zero,
        List.map_cons, List.take_left, map_turtle_take_append (List.Subset.refl _)]
  · next hroom =>
      have hmore : (i.openPushes u).length + 1 - i.maxStackDepth =
          (i.openPushes u).length - i.maxStackDepth + 1 := by omega
      refine ⟨?_, by rw [hopen, List.length_cons, hmore, hdropped]⟩
      rw [hstack, hopen, List.length_cons, hmore, List.drop_succ_cons,
        map_turtle_take_append (List.drop_subset _ _)]

/-- A pop takes the last open push away, from the count as long as there is one. -/
theorem Remembers.pop {i : Interpreter α} {u : Word} {c : Char}
    (h : i.Remembers u (i.walk i.begin u)) (hc : i.op c = .pop) :
    i.Remembers (u ++ [c]) (i.advance (i.walk i.begin u) .pop) := by
  obtain ⟨hstack, hdropped⟩ := h
  have hopen : i.openPushes (u ++ [c]) = (i.openPushes u).tail := by
    rw [openPushes_concat, hc, TurtleOp.nest]
  have htail := (List.tail_suffix (i.openPushes u)).subset
  rw [advance]
  split
  · next hpos =>
      have hless : (i.openPushes u).length - 1 - i.maxStackDepth + 1 =
          (i.openPushes u).length - i.maxStackDepth := by omega
      refine ⟨?_, by rw [hopen, List.length_tail]; dsimp only; omega⟩
      rw [hstack, hopen, List.length_tail, List.drop_tail, hless,
        map_turtle_take_append (List.drop_subset _ _)]
  · next hpos =>
      have hzero : (i.openPushes u).length - i.maxStackDepth = 0 := by omega
      have hzero' : (i.openPushes u).tail.length - i.maxStackDepth = 0 := by
        rw [List.length_tail]
        omega
      rw [hzero, List.drop_zero] at hstack
      cases hopened : i.openPushes u with
      | nil =>
          rw [hopened, List.map_nil] at hstack
          rw [hopened, List.tail_nil] at hopen
          rw [hstack]
          exact ⟨by rw [hstack, hopen, List.drop_nil, List.map_nil],
            by rw [hdropped, hopen, hopened]⟩
      | cons p rest =>
          rw [hopened, List.tail_cons] at hopen hzero' htail
          rw [hopened, List.map_cons] at hstack
          rw [hstack]
          refine ⟨?_, by rw [hopen, hzero', hdropped, hzero]⟩
          rw [hopen, hzero', List.drop_zero, map_turtle_take_append (hopened ▸ htail)]

/-- What the turtle remembers after a word are the states at its open pushes. -/
theorem remembers_walk (i : Interpreter α) (u : Word) : i.Remembers u (i.walk i.begin u) := by
  induction u using List.reverseRecOn with
  | nil => exact ⟨by simp [openPushes, walk, begin], (Nat.zero_sub _).symm⟩
  | append_singleton u c ih =>
      rw [walk_append]
      change i.Remembers (u ++ [c]) (i.advance (i.walk i.begin u) (i.op c))
      cases hc : i.op c with
      | push => exact ih.push hc
      | pop => exact ih.pop hc
      | draw | move | turn _ | turnAround | setStyle _ | ignore =>
          have hopen : i.openPushes (u ++ [c]) = i.openPushes u := by
            rw [openPushes_concat, hc]
            rfl
          refine ⟨?_, by rw [hopen]; exact ih.dropped_eq⟩
          rw [hopen, map_turtle_take_append (List.drop_subset _ _)]
          exact ih.stack_eq

end Interpreter

end Roadworks
