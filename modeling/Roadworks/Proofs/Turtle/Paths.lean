import Roadworks.Proofs.Turtle.Overflow
/-! # The active path of a word

A pop that goes back to a saved state undoes all that the turtle did since the push. What is left of
a word without the branches that were closed in this way, and without the brackets that do nothing,
is its active path: the turtle is where the operations along that path lead it one by one. -/

namespace Roadworks

variable {α : Type}

namespace Interpreter

/-! ## What is left of a word -/

/-- The position lies in a closed branch: from a push that found room to the pop that matches it,
both included. -/
def isClosed (i : Interpreter α) (word : Word) (k : Nat) : Bool :=
  (List.range word.length).any fun q =>
    (i.partner? word q).any fun p => !i.overflows word p && decide (p ≤ k) && decide (k ≤ q)

/-- The symbol at a position is a bracket that does nothing: a push without room or the pop that
matches one, or a pop with nothing to match. -/
def isIdle (i : Interpreter α) (word : Word) (k : Nat) : Bool :=
  i.isPruned word k || (word[k]?.any (fun c => (i.op c).pops) && (i.partner? word k).isNone)

/-- The symbol at a position stands on the active path. -/
def isActive (i : Interpreter α) (word : Word) (k : Nat) : Bool :=
  !i.isClosed word k && !i.isIdle word k

/-- A word without its closed branches and without the brackets that do nothing. -/
def activePath (i : Interpreter α) (word : Word) : Word :=
  (word.zipIdx.filter fun p => i.isActive word p.2).map Prod.fst

variable {i : Interpreter α} {u : Word} {c : Char} {k p : Nat} {below : List Nat}

theorem isClosed_iff : i.isClosed u k = true ↔ ∃ q p, q < u.length ∧ i.partner? u q = some p ∧
    i.overflows u p = false ∧ p ≤ k ∧ k ≤ q := by
  simp [isClosed, Option.any_eq_true, and_assoc]

theorem isIdle_append (hk : k < u.length) (v : Word) : i.isIdle (u ++ v) k = i.isIdle u k := by
  rw [isIdle, isIdle, isPruned_append hk, partner?_append hk, List.getElem?_append_left hk]

/-! ### Open pushes as time goes on -/

/-- A push that is open in the end has been open ever since. -/
theorem suffix_openPushes_take (h : p :: below <:+ i.openPushes u) {q : Nat} (hpq : p < q)
    (hq : q ≤ u.length) : p :: below <:+ i.openPushes (u.take q) := by
  induction u using List.reverseRecOn with
  | nil => simp [openPushes] at h
  | append_singleton u c ih =>
      rw [List.length_append, List.length_singleton] at hq
      rcases Nat.eq_or_lt_of_le hq with rfl | hlt
      · rwa [List.take_of_length_le (by simp)]
      · rw [List.take_append_of_le_length (Nat.le_of_lt_succ hlt)]
        refine ih ?_ (Nat.le_of_lt_succ hlt)
        rw [openPushes_concat] at h
        cases hc : i.op c with
        | push =>
            rw [hc, TurtleOp.nest, List.suffix_cons_iff] at h
            refine h.resolve_left fun heq => ?_
            have hlast := (List.cons.inj heq).1
            omega
        | pop =>
            rw [hc, TurtleOp.nest] at h
            exact h.trans (List.tail_suffix _)
        | draw | move | turn _ | turnAround | setStyle _ | ignore => rwa [hc] at h

/-- Within an open branch, pops match later pushes only. -/
theorem lt_of_partner?_of_suffix (h : p :: below <:+ i.openPushes u) {q p' : Nat} (hpq : p < q)
    (hq : q < u.length) (hpartner : i.partner? u q = some p') : p < p' := by
  rw [partner?, List.getElem?_eq_getElem hq, Option.any_some] at hpartner
  split at hpartner
  · next hpops =>
      obtain ⟨rest, hopen⟩ : ∃ rest, i.openPushes (u.take q) = p' :: rest :=
        List.head?_eq_some_iff.mp hpartner
      have hpop : i.op u[q] = .pop := by
        cases hop : i.op u[q] <;> simp [hop, TurtleOp.pops] at hpops ⊢
      have hafter : i.openPushes (u.take (q + 1)) = rest := by
        rw [← List.take_append_getElem hq, openPushes_concat, hpop, hopen]
        rfl
      -- The push at `p` is still open after the pop, so it lies below the matched one.
      have hp : p ∈ rest := by
        rw [← hafter]
        exact (suffix_openPushes_take h (Nat.lt_succ_of_lt hpq) hq).subset List.mem_cons_self
      have hsuffix : p' :: rest <:+ i.openPushes (u.take q) := hopen ▸ List.suffix_refl _
      rw [← (openPushes_take hsuffix).2] at hp
      have hlt := lt_length_of_mem_openPushes hp
      rw [List.length_take] at hlt
      omega
  · contradiction

/-- A push that is open found room if there were fewer open ones than the turtle remembers. -/
theorem overflows_of_suffix (h : p :: below <:+ i.openPushes u) :
    i.overflows u p = decide (i.maxStackDepth ≤ below.length) := by
  obtain ⟨⟨d, hd, hpush⟩, hbelow⟩ := openPushes_take h
  rw [overflows, hd, hbelow, Option.any_some, hpush]
  exact Bool.true_and _

/-- What lies before an open push is closed if it was so when the push occurred. -/
theorem isClosed_take (h : p :: below <:+ i.openPushes u) (hk : k < p) :
    i.isClosed u k = i.isClosed (u.take p) k := by
  obtain ⟨⟨d, hd, hpush⟩, _⟩ := openPushes_take h
  have hp : p < u.length := (List.getElem?_eq_some_iff.mp hd).1
  have hlength : (u.take p).length = p := List.length_take_of_le (Nat.le_of_lt hp)
  have hpartner {q : Nat} (hq : q < p) : i.partner? u q = i.partner? (u.take p) q := by
    conv => lhs; rw [← List.take_append_drop p u]
    exact partner?_append (by omega) _
  have hoverflow {q : Nat} (hq : q < p) : i.overflows u q = i.overflows (u.take p) q := by
    conv => lhs; rw [← List.take_append_drop p u]
    exact overflows_append (by omega) _
  rw [Bool.eq_iff_iff, isClosed_iff, isClosed_iff]
  constructor
  · rintro ⟨q, p', hq, hmatch, hroom, hle, hge⟩
    have hqp : q < p := by
      rcases Nat.lt_trichotomy q p with hlt | rfl | hgt
      · exact hlt
      · simp [partner?, hd, hpush, TurtleOp.pops] at hmatch
      · have hlater := lt_of_partner?_of_suffix h hgt hq hmatch
        omega
    have hp' := lt_of_partner?_eq_some hmatch
    exact ⟨q, p', by omega, (hpartner hqp).symm.trans hmatch,
      (hoverflow (Nat.lt_trans hp' hqp)).symm.trans hroom, hle, hge⟩
  · rintro ⟨q, p', hq, hmatch, hroom, hle, hge⟩
    have hp' := lt_of_partner?_eq_some hmatch
    exact ⟨q, p', by omega, (hpartner (by omega)).trans hmatch,
      (hoverflow (by omega)).trans hroom, hle, hge⟩

/-! ### One symbol more -/

theorem partner?_concat (i : Interpreter α) (u : Word) (c : Char) :
    i.partner? (u ++ [c]) u.length =
      if (i.op c).pops then (i.openPushes u).head? else none := by
  rw [partner?, List.getElem?_concat_length, List.take_left, Option.any_some]

/-- A bracket does nothing where the memory is full, or where there is nothing to match. -/
theorem isIdle_concat (i : Interpreter α) (u : Word) (c : Char) :
    i.isIdle (u ++ [c]) u.length =
      match i.op c with
      | .push => decide (i.maxStackDepth ≤ (i.openPushes u).length)
      | .pop => decide (i.maxStackDepth < (i.openPushes u).length) || (i.openPushes u).isEmpty
      | _ => false := by
  rw [isIdle, isPruned_concat, partner?_concat, List.getElem?_concat_length, Option.any_some]
  cases hc : i.op c with
  | pop => cases i.openPushes u <;> simp [TurtleOp.pops]
  | push | draw | move | turn _ | turnAround | setStyle _ | ignore => simp [TurtleOp.pops]

/-- A position is closed from the pop on that closes a branch around it. -/
theorem isClosed_concat_iff : i.isClosed (u ++ [c]) k = true ↔ i.isClosed u k = true ∨
    ∃ p, i.partner? (u ++ [c]) u.length = some p ∧ i.overflows (u ++ [c]) p = false ∧
      p ≤ k ∧ k ≤ u.length := by
  rw [isClosed_iff, isClosed_iff]
  constructor
  · rintro ⟨q, p, hq, hmatch, hroom, hbounds⟩
    rw [List.length_append, List.length_singleton] at hq
    rcases Nat.eq_or_lt_of_le (Nat.le_of_lt_succ hq) with rfl | hlt
    · exact .inr ⟨p, hmatch, hroom, hbounds⟩
    · have hpq := lt_of_partner?_eq_some hmatch
      rw [partner?_append hlt] at hmatch
      rw [overflows_append (Nat.lt_trans hpq hlt)] at hroom
      exact .inl ⟨q, p, hlt, hmatch, hroom, hbounds⟩
  · rintro (⟨q, p, hq, hmatch, hroom, hbounds⟩ | ⟨p, hmatch, hroom, hbounds⟩)
    · have hpq := lt_of_partner?_eq_some hmatch
      exact ⟨q, p, by simp; omega, (partner?_append hq _).trans hmatch,
        (overflows_append (Nat.lt_trans hpq hq) _).trans hroom, hbounds⟩
    · exact ⟨u.length, p, by simp, hmatch, hroom, hbounds⟩

/-- A symbol that closes no branch is added to the active path, unless it does nothing. -/
theorem activePath_concat
    (h : ∀ p, i.partner? (u ++ [c]) u.length = some p → i.overflows (u ++ [c]) p = true) :
    i.activePath (u ++ [c]) =
      i.activePath u ++ if i.isIdle (u ++ [c]) u.length then [] else [c] := by
  have hclosed (k : Nat) : i.isClosed (u ++ [c]) k = i.isClosed u k := by
    rw [Bool.eq_iff_iff, isClosed_concat_iff, or_iff_left]
    rintro ⟨p, hmatch, hroom, _⟩
    rw [h p hmatch] at hroom
    contradiction
  have hbefore : (u.zipIdx.filter fun p => i.isActive (u ++ [c]) p.2) =
      u.zipIdx.filter fun p => i.isActive u p.2 :=
    List.filter_congr fun p hp => by
      rw [isActive, isActive, hclosed, isIdle_append (List.snd_lt_of_mem_zipIdx hp)]
  have hlast : i.isClosed u u.length = false := by
    rw [Bool.eq_false_iff, ne_eq, isClosed_iff]
    rintro ⟨q, _, hq, _, _, _, hle⟩
    omega
  rw [activePath, List.zipIdx_append, List.filter_append, List.map_append, hbefore, ← activePath,
    Nat.zero_add, List.zipIdx_singleton]
  cases hidle : i.isIdle (u ++ [c]) u.length <;> simp [isActive, hclosed, hlast, hidle]

/-- A pop that goes back to a saved state leaves the active path that there was at its push. -/
theorem activePath_concat_pop (hc : i.op c = .pop) (hopen : i.openPushes u = p :: below)
    (hroom : below.length < i.maxStackDepth) :
    i.activePath (u ++ [c]) = i.activePath (u.take p) := by
  have hsuffix : p :: below <:+ i.openPushes u := hopen ▸ List.suffix_refl _
  have hp : p < u.length := lt_length_of_mem_openPushes (hopen ▸ List.mem_cons_self)
  have hlength : (u.take p).length = p := List.length_take_of_le (Nat.le_of_lt hp)
  have hmatch : i.partner? (u ++ [c]) u.length = some p := by
    rw [partner?_concat, hc, hopen]
    rfl
  have hfound : i.overflows (u ++ [c]) p = false := by
    rw [overflows_append hp, overflows_of_suffix hsuffix]
    exact decide_eq_false (Nat.not_le.mpr hroom)
  have hsplit : u ++ [c] = u.take p ++ (u.drop p ++ [c]) := by
    rw [← List.append_assoc, List.take_append_drop]
  -- Everything from the push on is closed, and before it nothing has changed.
  have hinside : ((u.drop p ++ [c]).zipIdx p).filter (fun e => i.isActive (u ++ [c]) e.2) = [] := by
    rw [List.filter_eq_nil_iff]
    intro e he
    have hbounds := List.le_snd_of_mem_zipIdx he
    have hend := List.snd_lt_add_of_mem_zipIdx he
    rw [List.length_append, List.length_drop, List.length_singleton] at hend
    have hclosed : i.isClosed (u ++ [c]) e.2 = true :=
      isClosed_iff.mpr ⟨u.length, p, by simp, hmatch, hfound, hbounds, by omega⟩
    simp [isActive, hclosed]
  have hbefore : ((u.take p).zipIdx.filter fun e => i.isActive (u ++ [c]) e.2) =
      (u.take p).zipIdx.filter fun e => i.isActive (u.take p) e.2 := by
    refine List.filter_congr fun e he => ?_
    have hlt : e.2 < (u.take p).length := List.snd_lt_of_mem_zipIdx he
    have hk : e.2 < p := hlength ▸ hlt
    have hidle : i.isIdle (u ++ [c]) e.2 = i.isIdle (u.take p) e.2 := by
      rw [hsplit]
      exact isIdle_append hlt _
    have hclosed : i.isClosed (u ++ [c]) e.2 = i.isClosed (u.take p) e.2 := by
      rw [← isClosed_take hsuffix hk, Bool.eq_iff_iff, isClosed_concat_iff, or_iff_left]
      rintro ⟨p', hmatch', _, hle, _⟩
      obtain rfl := Option.some.inj (hmatch.symm.trans hmatch')
      omega
    rw [isActive, isActive, hidle, hclosed]
  have hzip : (u ++ [c]).zipIdx = (u.take p).zipIdx ++ (u.drop p ++ [c]).zipIdx p := by
    rw [hsplit, List.zipIdx_append, hlength, Nat.zero_add]
  rw [activePath, hzip, List.filter_append, hinside, hbefore, List.append_nil, ← activePath]

/-- A bracket that does nothing closes no branch. -/
theorem overflows_of_isIdle (h : i.isIdle (u ++ [c]) u.length = true)
    (hmatch : i.partner? (u ++ [c]) u.length = some p) : i.overflows (u ++ [c]) p = true := by
  rw [partner?_concat] at hmatch
  rw [isIdle_concat] at h
  cases hc : i.op c with
  | pop =>
      rw [hc, TurtleOp.pops, if_pos rfl] at hmatch
      obtain ⟨below, hopen⟩ := List.head?_eq_some_iff.mp hmatch
      have hp : p < u.length := lt_length_of_mem_openPushes (hopen ▸ List.mem_cons_self)
      rw [overflows_append hp, overflows_of_suffix (hopen ▸ List.suffix_refl _ : p :: below <:+ _)]
      simp only [hc, hopen, List.length_cons, List.isEmpty_cons, Bool.or_false,
        decide_eq_true_eq] at h ⊢
      omega
  | push | draw | move | turn _ | turnAround | setStyle _ | ignore =>
      rw [hc] at hmatch
      contradiction

/-- The active path stays as it is when the next symbol is a bracket that does nothing. -/
theorem activePath_concat_idle (h : i.isIdle (u ++ [c]) u.length = true) :
    i.activePath (u ++ [c]) = i.activePath u := by
  rw [activePath_concat fun p hmatch => overflows_of_isIdle h hmatch, if_pos h, List.append_nil]

/-- Any other symbol that is no pop is added to the active path. -/
theorem activePath_concat_of_not_pops (hc : (i.op c).pops = false)
    (h : i.isIdle (u ++ [c]) u.length = false) :
    i.activePath (u ++ [c]) = i.activePath u ++ [c] := by
  have hnone : i.partner? (u ++ [c]) u.length = none := by
    rw [partner?_concat, hc, if_neg Bool.false_ne_true]
  rw [activePath_concat (by simp [hnone]), h, if_neg Bool.false_ne_true]

/-! ## Symbols that set a style -/

/-- A style symbol sets its style, and any other symbol does what it did before. -/
theorem op_foldl_withOp {entries : List (Char × String)}
    (hsorted : entries.Pairwise (·.1 < ·.1)) (i : Interpreter α) (a : Char) :
    (entries.foldl (fun i (symbol, style) => i.withOp symbol (.setStyle style)) i).op a =
      match entries.lookup a with
      | some style => .setStyle style
      | none => i.op a := by
  induction entries generalizing i with
  | nil => rfl
  | cons e entries ih =>
      obtain ⟨hfirst, hrest⟩ := List.pairwise_cons.mp hsorted
      rw [List.foldl_cons, ih hrest, List.lookup_cons]
      by_cases ha : a = e.1
      · have hnone : entries.lookup a = none :=
          Dictionary.lookup_eq_none_of_lt (ha ▸ hfirst)
        rw [hnone, beq_iff_eq.mpr ha]
        exact if_pos ha
      · rw [beq_eq_false_iff_ne.mpr ha]
        cases entries.lookup a with
        | some style => rfl
        | none => exact if_neg ha

theorem turnAngle_foldl_withOp (i : Interpreter α) (entries : List (Char × String)) :
    (entries.foldl (fun i (symbol, style) => i.withOp symbol (.setStyle style)) i).turnAngle =
      i.turnAngle := by
  induction entries generalizing i with
  | nil => rfl
  | cons e entries ih => exact ih (i.withOp e.1 (.setStyle e.2))

theorem stepLength_foldl_withOp (i : Interpreter α) (entries : List (Char × String)) :
    (entries.foldl (fun i (symbol, style) => i.withOp symbol (.setStyle style)) i).stepLength =
      i.stepLength := by
  induction entries generalizing i with
  | nil => rfl
  | cons e entries ih => exact ih (i.withOp e.1 (.setStyle e.2))

/-! ## Walking along a path -/

variable [Scalar α]

/-- The turtle after an operation that moves it, turns it or changes its style. The others leave it
as it is. -/
def steer (i : Interpreter α) (t : TurtleState α) : TurtleOp α → TurtleState α
  | .draw | .move => t.step i.stepLength
  | .turn factor => t.turn (i.turnAngle * factor)
  | .turnAround => t.turn Scalar.pi
  | .setStyle style => { t with styleClass := style }
  | .push | .pop | .ignore => t

/-- The turtle at the end of a path, on which nothing is saved. -/
def follow (i : Interpreter α) (path : Word) : TurtleState α :=
  path.foldl (fun t c => i.steer t (i.op c)) (.initial i.defaultStyle)

theorem follow_concat (i : Interpreter α) (path : Word) (c : Char) :
    i.follow (path ++ [c]) = i.steer (i.follow path) (i.op c) :=
  List.foldl_append

/-- A bracket that does nothing leaves the turtle where it is. -/
theorem turtle_advance_of_isIdle (h : i.isIdle (u ++ [c]) u.length = true) :
    (i.advance (i.walk i.begin u) (i.op c)).turtle = (i.walk i.begin u).turtle := by
  have hremembers := i.remembers_walk u
  have hlength := hremembers.length_stack
  have hdropped := hremembers.dropped_eq
  rw [isIdle_concat] at h
  cases hc : i.op c with
  | push =>
      rw [hc, decide_eq_true_eq] at h
      rw [advance, if_neg (by omega)]
  | pop =>
      rw [hc, Bool.or_eq_true, decide_eq_true_eq, List.isEmpty_iff] at h
      rw [advance]
      split
      · rfl
      · next hnone =>
          have hempty : i.openPushes u = [] := h.resolve_left (by omega)
          rw [hempty, List.length_nil, Nat.zero_min, List.length_eq_zero_iff] at hlength
          rw [hlength]
  | draw | move | turn _ | turnAround | setStyle _ | ignore =>
      rw [hc] at h
      contradiction

/-- A pop that closes a branch takes the turtle back to where it was at the push. -/
theorem turtle_advance_pop (hopen : i.openPushes u = p :: below)
    (hroom : below.length < i.maxStackDepth) :
    (i.advance (i.walk i.begin u) .pop).turtle = (i.walk i.begin (u.take p)).turtle := by
  obtain ⟨hstack, hdropped⟩ := i.remembers_walk u
  have hzero : (i.openPushes u).length - i.maxStackDepth = 0 := by
    rw [hopen, List.length_cons]
    omega
  rw [hzero, List.drop_zero, hopen, List.map_cons] at hstack
  rw [advance, if_neg (by omega), hstack]

/-- The turtle is where the active path leads. -/
theorem turtle_walk (i : Interpreter α) (u : Word) :
    (i.walk i.begin u).turtle = i.follow (i.activePath u) := by
  -- A pop goes back to a shorter word, so the induction is on the length.
  induction hn : u.length using Nat.strongRecOn generalizing u with
  | ind n ih =>
      rcases List.eq_nil_or_concat u with rfl | ⟨u, c, rfl⟩
      · rfl
      · rw [List.concat_eq_append] at hn ⊢
        rw [List.length_append, List.length_singleton] at hn
        have hbefore := ih u.length (by omega) u rfl
        have hadvance : i.walk i.begin (u ++ [c]) = i.advance (i.walk i.begin u) (i.op c) :=
          walk_append ..
        rw [hadvance]
        by_cases hidle : i.isIdle (u ++ [c]) u.length = true
        · rw [turtle_advance_of_isIdle hidle, activePath_concat_idle hidle, hbefore]
        · have hbusy := Bool.eq_false_iff.mpr hidle
          rw [isIdle_concat] at hidle
          cases hc : i.op c with
          | pop =>
              rw [hc, Bool.or_eq_true, decide_eq_true_eq, not_or] at hidle
              cases hopen : i.openPushes u with
              | nil => simp [hopen] at hidle
              | cons p below =>
                  rw [hopen, List.length_cons] at hidle
                  have hp := lt_length_of_mem_openPushes (hopen ▸ List.mem_cons_self)
                  rw [turtle_advance_pop hopen (by omega),
                    activePath_concat_pop hc hopen (by omega)]
                  exact ih (u.take p).length (by rw [List.length_take]; omega) _ rfl
          | push =>
              rw [hc, decide_eq_true_eq] at hidle
              have hlength := (i.remembers_walk u).length_stack
              rw [activePath_concat_of_not_pops (by rw [hc]; rfl) hbusy, follow_concat,
                ← hbefore, hc, advance, if_pos (by omega), steer]
          | draw | move | turn _ | turnAround | setStyle _ | ignore =>
              rw [activePath_concat_of_not_pops (by rw [hc]; rfl) hbusy, follow_concat,
                ← hbefore, hc]
              rfl

/-! ## What is drawn -/

/-- Every stroke belongs to a symbol that draws, and there are as many such symbols before it as
strokes. -/
theorem exists_of_getElem?_strokes {w : Walk α} {word : Word} {n : Nat} {s : Stroke α}
    (h : (i.strokes w word)[n]? = some s) :
    ∃ u c v, word = u ++ c :: v ∧ i.op c = .draw ∧ (u.countP fun c => (i.op c).draws) = n ∧
      i.stroke? (i.walk w u) .draw = some s := by
  induction word generalizing w n with
  | nil => simp [strokes] at h
  | cons c word ih =>
      rw [strokes] at h
      cases hc : i.op c with
      | draw =>
          rw [hc, stroke?] at h
          cases n with
          | zero => exact ⟨[], c, word, rfl, hc, rfl, h⟩
          | succ n =>
              obtain ⟨u, d, v, rfl, hd, hcount, hs⟩ := ih h
              refine ⟨c :: u, d, v, rfl, hd, ?_, ?_⟩
              · rw [List.countP_cons_of_pos (by simp [hc, TurtleOp.draws]), hcount]
              · rwa [walk, List.foldl_cons, hc]
      | push | pop | move | turn _ | turnAround | setStyle _ | ignore =>
          have hnone : i.stroke? w (i.op c) = none := by rw [hc]; rfl
          rw [hnone] at h
          obtain ⟨u, d, v, rfl, hd, hcount, hs⟩ := ih h
          refine ⟨c :: u, d, v, rfl, hd, ?_, ?_⟩
          · rw [List.countP_cons_of_neg (by simp [hc, TurtleOp.draws]), hcount]
          · rwa [walk, List.foldl_cons]

/-- Every segment is the step from the end of an active path: that of the symbols before the one
that draws it. -/
theorem exists_of_getElem?_interpret {word : Word} {n : Nat} {s : RoadSegment α}
    (h : (i.interpret word)[n]? = some s) :
    ∃ u c v, word = u ++ c :: v ∧ i.op c = .draw ∧ (u.countP fun c => (i.op c).draws) = n ∧
      s = ⟨n, (i.follow (i.activePath u)).position,
        ((i.follow (i.activePath u)).step i.stepLength).position,
        (i.follow (i.activePath u)).heading, (i.follow (i.activePath u)).styleClass⟩ := by
  rw [interpret, List.getElem?_map, List.getElem?_zipIdx, Option.map_map, Nat.zero_add,
    Option.map_eq_some_iff] at h
  obtain ⟨stroke, hstroke, rfl⟩ := h
  obtain ⟨u, c, v, hword, hc, hcount, hs⟩ := exists_of_getElem?_strokes hstroke
  refine ⟨u, c, v, hword, hc, hcount, ?_⟩
  rw [stroke?, Option.some.injEq] at hs
  rw [← turtle_walk, ← hs]
  rfl

/-! ## The turtle of a configuration -/

/-- A configuration has a turtle exactly if its turtle part is sound. -/
theorem ofConfig_eq_ok_iff {c : GrammarConfig α} : ofConfig c = .ok i ↔
    c.validateTurtle = .ok () ∧
      c.styleSymbols.entries.foldl (fun i (symbol, style) => i.withOp symbol (.setStyle style))
        ⟨standardOp, Scalar.radians c.turnAngle, c.stepLength, c.defaultStyle,
          c.maxStackDepth.toNat⟩ = i := by
  rw [ofConfig]
  cases c.validateTurtle with
  | error e => simp [Except.map]
  | ok _ => simp [Except.map]

theorem turnAngle_of_ofConfig {c : GrammarConfig α} (hi : ofConfig c = .ok i) :
    i.turnAngle = Scalar.radians c.turnAngle := by
  obtain ⟨_, rfl⟩ := ofConfig_eq_ok_iff.mp hi
  exact turnAngle_foldl_withOp _ _

theorem stepLength_of_ofConfig {c : GrammarConfig α} (hi : ofConfig c = .ok i) :
    i.stepLength = c.stepLength := by
  obtain ⟨_, rfl⟩ := ofConfig_eq_ok_iff.mp hi
  exact stepLength_foldl_withOp _ _

/-- Symbols have the meaning that every turtle gives them, unless they set a style. -/
theorem op_of_ofConfig {c : GrammarConfig α} (hi : ofConfig c = .ok i) (a : Char) :
    i.op a = match c.styleSymbols.get? a with
      | some style => .setStyle style
      | none => standardOp a := by
  obtain ⟨_, rfl⟩ := ofConfig_eq_ok_iff.mp hi
  exact op_foldl_withOp c.styleSymbols.sorted _ a

end Interpreter

/-- A branch that was closed, a pop with nothing to match, a push without room with its pop, and a
branch that stays open. -/
example : narrow.activePath "F[+F]F]G[F[-]f".toList = "FFG[F-f".toList := by decide +kernel

end Roadworks
