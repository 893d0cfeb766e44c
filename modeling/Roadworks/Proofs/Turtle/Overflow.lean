import Roadworks.Proofs.Turtle.Memory
import Roadworks.Scalar.Binary64
/-! # A limited memory and an unlimited one

A turtle with a limited memory draws what one without a limit draws, once the pushes that find the
limit reached are taken out of the word together with the pops that match them. -/

namespace Roadworks

variable {α : Type}

namespace Interpreter

/-! ## What is taken out of a word -/

/-- The symbol at a position is a push, and as many earlier pushes are open as the turtle can
remember. -/
def overflows (i : Interpreter α) (word : Word) (k : Nat) : Bool :=
  word[k]?.any (fun c => (i.op c).pushes) && i.maxStackDepth ≤ (i.openPushes (word.take k)).length

/-- The position of the push that the pop at a position matches: the last one that is open. -/
def partner? (i : Interpreter α) (word : Word) (k : Nat) : Option Nat :=
  if word[k]?.any fun c => (i.op c).pops then (i.openPushes (word.take k)).head? else none

/-- The symbol at a position is a push without room or the pop that matches one. -/
def isPruned (i : Interpreter α) (word : Word) (k : Nat) : Bool :=
  i.overflows word k || (i.partner? word k).any (i.overflows word)

/-- A word without the pushes that find no room and the pops that match them. -/
def pruned (i : Interpreter α) (word : Word) : Word :=
  (word.zipIdx.filter fun p => !i.isPruned word p.2).map Prod.fst

/-! ### One symbol more -/

variable {i : Interpreter α} {u : Word}

theorem overflows_append {k : Nat} (hk : k < u.length) (v : Word) :
    i.overflows (u ++ v) k = i.overflows u k := by
  rw [overflows, overflows, List.getElem?_append_left hk,
    List.take_append_of_le_length (Nat.le_of_lt hk)]

theorem partner?_append {k : Nat} (hk : k < u.length) (v : Word) :
    i.partner? (u ++ v) k = i.partner? u k := by
  rw [partner?, partner?, List.getElem?_append_left hk,
    List.take_append_of_le_length (Nat.le_of_lt hk)]

/-- A pop stands after the push that it matches. -/
theorem lt_of_partner?_eq_some {k p : Nat} (h : i.partner? u k = some p) : p < k := by
  rw [partner?] at h
  split at h
  · have hlt := lt_length_of_mem_openPushes (List.mem_of_mem_head? h)
    rw [List.length_take] at hlt
    omega
  · contradiction

theorem isPruned_append {k : Nat} (hk : k < u.length) (v : Word) :
    i.isPruned (u ++ v) k = i.isPruned u k := by
  rw [isPruned, isPruned, overflows_append hk, partner?_append hk]
  cases hp : i.partner? u k with
  | none => rfl
  | some p =>
      have hlt := Nat.lt_trans (lt_of_partner?_eq_some hp) hk
      rw [Option.any_some, Option.any_some, overflows_append hlt]

/-- Whether a symbol is taken out is seen from the number of open pushes before it. -/
theorem isPruned_concat (i : Interpreter α) (u : Word) (c : Char) :
    i.isPruned (u ++ [c]) u.length =
      match i.op c with
      | .push => decide (i.maxStackDepth ≤ (i.openPushes u).length)
      | .pop => decide (i.maxStackDepth < (i.openPushes u).length)
      | _ => false := by
  have hlast : (u ++ [c])[u.length]? = some c := List.getElem?_concat_length
  rw [isPruned, overflows, partner?, hlast, List.take_left, Option.any_some, Option.any_some]
  cases hc : i.op c with
  | push => simp [TurtleOp.pushes, TurtleOp.pops]
  | pop =>
      cases hopened : i.openPushes u with
      | nil => simp [TurtleOp.pushes, TurtleOp.pops]
      | cons p below =>
          -- The matching push had the pushes below it before it.
          obtain ⟨⟨d, hd, hpush⟩, hbelow⟩ :=
            openPushes_take (hopened ▸ List.suffix_refl _ : p :: below <:+ i.openPushes u)
          have hp : p < u.length := (List.getElem?_eq_some_iff.mp hd).1
          have hpartner : i.overflows (u ++ [c]) p = decide (i.maxStackDepth ≤ below.length) := by
            rw [overflows_append hp, overflows, hd, hbelow, Option.any_some, hpush]
            exact Bool.true_and _
          have hlimit : i.maxStackDepth < (p :: below).length ↔ i.maxStackDepth ≤ below.length :=
            Nat.lt_succ_iff
          simp only [TurtleOp.pushes, TurtleOp.pops, hpartner, hlimit, List.head?_cons,
            if_true, Option.any_some, Bool.false_and, Bool.false_or]
  | draw | move | turn _ | turnAround | setStyle _ | ignore =>
      simp [TurtleOp.pushes, TurtleOp.pops]

theorem pruned_concat (i : Interpreter α) (u : Word) (c : Char) :
    i.pruned (u ++ [c]) = i.pruned u ++ if i.isPruned (u ++ [c]) u.length then [] else [c] := by
  have hbefore : (u.zipIdx.filter fun p => !i.isPruned (u ++ [c]) p.2) =
      u.zipIdx.filter fun p => !i.isPruned u p.2 :=
    List.filter_congr fun p hp => by rw [isPruned_append (List.snd_lt_of_mem_zipIdx hp)]
  rw [pruned, List.zipIdx_append, List.filter_append, List.map_append, hbefore, ← pruned,
    Nat.zero_add, List.zipIdx_singleton]
  cases h : i.isPruned (u ++ [c]) u.length <;> simp [h]

/-! ## The turtle without a limit -/

variable [Scalar α]

/-- The walk after one operation when the memory has no limit. -/
def advanceFreely (i : Interpreter α) (w : Walk α) : TurtleOp α → Walk α
  | .push => { w with stack := w.turtle :: w.stack }
  | .pop =>
    match w.stack with
    | [] => w
    | t :: rest => { w with turtle := t, stack := rest }
  | op => i.advance w op

/-- The walk after a word when the memory has no limit. -/
def walkFreely (i : Interpreter α) (w : Walk α) (word : Word) : Walk α :=
  word.foldl (fun w c => i.advanceFreely w (i.op c)) w

/-- What a word draws when the memory has no limit. -/
def strokesFreely (i : Interpreter α) (w : Walk α) : Word → List (Stroke α)
  | [] => []
  | c :: rest =>
    match i.stroke? w (i.op c) with
    | none => i.strokesFreely (i.advanceFreely w (i.op c)) rest
    | some s => s :: i.strokesFreely (i.advanceFreely w (i.op c)) rest

/-- The segments that a word draws when the memory has no limit. -/
def interpretFreely (i : Interpreter α) (word : Word) : List (RoadSegment α) :=
  (i.strokesFreely i.begin word).zipIdx.map fun (s, id) =>
    ⟨id, s.start, s.stop, s.heading, s.styleClass⟩

theorem walkFreely_concat (i : Interpreter α) (w : Walk α) (u : Word) (c : Char) :
    i.walkFreely w (u ++ [c]) = i.advanceFreely (i.walkFreely w u) (i.op c) :=
  List.foldl_append

theorem strokesFreely_concat (i : Interpreter α) (w : Walk α) (u : Word) (c : Char) :
    i.strokesFreely w (u ++ [c]) =
      i.strokesFreely w u ++ (i.stroke? (i.walkFreely w u) (i.op c)).toList := by
  induction u generalizing w with
  | nil =>
      rw [List.nil_append, strokesFreely]
      cases h : i.stroke? w (i.op c) <;> simp [strokesFreely, walkFreely, h]
  | cons d u ih =>
      rw [List.cons_append, strokesFreely, strokesFreely, ih]
      split <;> rfl

theorem strokes_concat (i : Interpreter α) (w : Walk α) (u : Word) (c : Char) :
    i.strokes w (u ++ [c]) = i.strokes w u ++ (i.stroke? (i.walk w u) (i.op c)).toList := by
  rw [strokes_append, strokes]
  cases h : i.stroke? (i.walk w u) (i.op c) <;> simp [strokes]

/-! ## The two turtles side by side -/

/-- The walks over a word and over what is left of it, with and without a limit, are at the same place
with the same memory, and they have drawn the same. -/
structure AgreesOn (i : Interpreter α) (u : Word) : Prop where
  walk_eq : i.walkFreely i.begin (i.pruned u) = { i.walk i.begin u with dropped := 0 }
  strokes_eq : i.strokesFreely i.begin (i.pruned u) = i.strokes i.begin u

/-- A symbol that is taken out changes nothing but the count of dropped pushes. -/
theorem advance_of_isPruned {c : Char} (h : i.isPruned (u ++ [c]) u.length) :
    i.stroke? (i.walk i.begin u) (i.op c) = none ∧
      { i.advance (i.walk i.begin u) (i.op c) with dropped := 0 } =
        { i.walk i.begin u with dropped := 0 } := by
  have hremembers := i.remembers_walk u
  have hlength := hremembers.length_stack
  have hdropped := hremembers.dropped_eq
  rw [isPruned_concat] at h
  cases hc : i.op c with
  | push =>
      rw [hc] at h
      have hfull : i.maxStackDepth ≤ (i.openPushes u).length := of_decide_eq_true h
      refine ⟨rfl, ?_⟩
      rw [advance, if_neg (by omega)]
  | pop =>
      rw [hc] at h
      have hover : i.maxStackDepth < (i.openPushes u).length := of_decide_eq_true h
      refine ⟨rfl, ?_⟩
      rw [advance, if_pos (by omega)]
  | draw | move | turn _ | turnAround | setStyle _ | ignore =>
      rw [hc] at h
      contradiction

/-- A symbol that stays does the same with and without a limit. -/
theorem advance_of_not_isPruned {c : Char} (h : ¬ i.isPruned (u ++ [c]) u.length) :
    i.advanceFreely { i.walk i.begin u with dropped := 0 } (i.op c) =
      { i.advance (i.walk i.begin u) (i.op c) with dropped := 0 } := by
  have hremembers := i.remembers_walk u
  have hlength := hremembers.length_stack
  have hdropped := hremembers.dropped_eq
  rw [isPruned_concat] at h
  cases hc : i.op c with
  | push =>
      rw [hc] at h
      have hroom : ¬ i.maxStackDepth ≤ (i.openPushes u).length := fun hle => h (decide_eq_true hle)
      rw [advanceFreely, advance, if_pos (by omega)]
  | pop =>
      rw [hc] at h
      have hnone : ¬ i.maxStackDepth < (i.openPushes u).length := fun hlt => h (decide_eq_true hlt)
      rw [advanceFreely, advance, if_neg (by omega)]
      cases (i.walk i.begin u).stack <;> rfl
  | draw | move | turn _ | turnAround | setStyle _ | ignore => rfl

theorem agreesOn (i : Interpreter α) (u : Word) : i.AgreesOn u := by
  induction u using List.reverseRecOn with
  | nil => exact ⟨rfl, rfl⟩
  | append_singleton u c ih =>
      obtain ⟨hwalk, hstrokes⟩ := ih
      have hadvance : i.walk i.begin (u ++ [c]) = i.advance (i.walk i.begin u) (i.op c) :=
        walk_append ..
      by_cases h : i.isPruned (u ++ [c]) u.length
      · obtain ⟨hnone, hsame⟩ := advance_of_isPruned h
        have hpruned : i.pruned (u ++ [c]) = i.pruned u := by
          rw [pruned_concat, if_pos h, List.append_nil]
        refine ⟨?_, ?_⟩
        · rw [hpruned, hwalk, hadvance, hsame]
        · rw [hpruned, hstrokes, strokes_concat, hnone, Option.toList_none, List.append_nil]
      · have hpruned : i.pruned (u ++ [c]) = i.pruned u ++ [c] := by
          rw [pruned_concat, if_neg h]
        -- What is drawn does not depend on what is remembered.
        have hstroke : i.stroke? { i.walk i.begin u with dropped := 0 } (i.op c) =
            i.stroke? (i.walk i.begin u) (i.op c) := by
          cases i.op c <;> rfl
        refine ⟨?_, ?_⟩
        · rw [hpruned, walkFreely_concat, hwalk, hadvance, advance_of_not_isPruned h]
        · rw [hpruned, strokesFreely_concat, hstrokes, hwalk, hstroke, strokes_concat]

/-- A limited turtle draws what an unlimited one draws from the word without the pushes that find no
room and the pops that match them. -/
theorem interpret_eq_interpretFreely_pruned (i : Interpreter α) (word : Word) :
    i.interpret word = i.interpretFreely (i.pruned word) := by
  rw [interpret, interpretFreely, (i.agreesOn word).strokes_eq]

end Interpreter

/-- The standard turtle with room for one state. -/
def narrow : Interpreter Float := ⟨Interpreter.standardOp, 0.5, 10.0, "street", 1⟩

/-- A pop with nothing to match, a push without room with its pop, and a push that stays open. -/
example : narrow.pruned "F]F[F[+F]F]F[F".toList = "F]F[F+FF]F[F".toList := by decide +kernel

end Roadworks
