import Roadworks.Proofs.Json.Tokens
import Roadworks.Scalar.Binary64
/-! # Values that are read as they were written

Whether the text of a value is read as that value is seen from its parts: texts and counts always
are, a measure is where its own digits are, and arrays and records are where their entries are. -/

namespace Roadworks.Json

/-- The text of the value is read as the value, whatever goes on with the enclosing one, and it
cannot be taken for blanks or for the end of an array. -/
structure Reads (v : Json Float) : Prop where
  starts : ∃ c more, v.compact.toList = c :: more ∧ isSpace c = false ∧ c ≠ ']'
  readValue_eq : ∀ (fuel : Nat) (rest : List Char), Stops rest → 2 * v.compact.length ≤ fuel + 1 →
    readValue (fuel + 1) (v.compact.toList ++ rest) = some (v, rest)

theorem skip_cons {c : Char} (h : isSpace c = false) (cs : List Char) : skip (c :: cs) = c :: cs := by
  rw [skip, List.dropWhile_cons_of_neg (by simp [h])]

theorem Reads.length_pos {v : Json Float} (h : Reads v) : 0 < v.compact.length := by
  obtain ⟨c, more, hcs, _⟩ := h.starts
  rw [← String.length_toList, hcs]
  exact Nat.succ_pos _

/-- A text that is read as a value within others is read as that value on its own. -/
theorem Reads.read_eq {v : Json Float} (h : Reads v) : read v.compact = some v := by
  have hstops : Stops [] := by simp [Stops]
  have hvalue := h.readValue_eq (2 * v.compact.length + 1) [] hstops (by omega)
  rw [List.append_nil] at hvalue
  rw [read, hvalue]
  rfl

/-! ## Values without parts -/

theorem reads_null : Reads .null :=
  ⟨⟨'n', ['u', 'l', 'l'], rfl, rfl, by decide⟩, fun _ _ _ _ => rfl⟩

theorem reads_text (s : String) : Reads (.text s) := by
  have hcs : (compact (.text s)).toList = '"' :: (s.toList.flatMap escape ++ ['"']) := toList_quote s
  refine ⟨⟨'"', _, hcs, rfl, by decide⟩, fun fuel rest _ _ => ?_⟩
  have htext : readText ((compact (.text s)).toList ++ rest) = some (some s, rest) :=
    readText_quote s rest
  rw [hcs, List.cons_append] at htext ⊢
  rw [readValue, skip_cons rfl]
  simp only [htext]
  rfl

/-- The first character of a number is no blank and no bracket. -/
theorem isSpace_eq_false_of_number {c : Char} (h : c = '-' ∨ Decimal.isDigit c) :
    isSpace c = false ∧ c ≠ ']' := by
  constructor
  · rw [← Bool.not_eq_true]
    intro hspace
    simp only [isSpace, Bool.or_eq_true, beq_iff_eq] at hspace
    rcases hspace with ((rfl | rfl) | rfl) | rfl <;> exact absurd h (by decide)
  · rintro rfl
    exact absurd h (by decide)

/-- Text that is read as a number is read as a value. -/
theorem readValue_of_readNumber {cs rest : List Char} {v : Json Float}
    (h : readNumber cs = some (v, rest)) (fuel : Nat) :
    readValue (fuel + 1) cs = some (v, rest) := by
  obtain ⟨c, more, rfl, hc⟩ := exists_cons_of_readNumber h
  rw [readValue, skip_cons (isSpace_eq_false_of_number hc).1]
  split
  case h_7 => exact h
  all_goals
    next heq =>
      obtain ⟨rfl, _⟩ := List.cons.inj heq
      exact absurd hc (by decide)

theorem reads_number {v : Json Float} (h : readNumber v.compact.toList = some (v, [])) : Reads v := by
  refine ⟨?_, fun fuel rest hrest _ => readValue_of_readNumber (readNumber_append_of_eq hrest h) fuel⟩
  obtain ⟨c, more, hcs, hc⟩ := exists_cons_of_readNumber h
  exact ⟨c, more, hcs, isSpace_eq_false_of_number hc⟩

theorem reads_count (n : Nat) : Reads (.count n) := by
  have htext : (compact (.count n)).toList = Nat.toDigits 10 n := Nat.toList_repr
  refine reads_number ?_
  rw [htext]
  exact readNumber_toDigits n

/-- A measure is read as it was written where its digits are. -/
theorem reads_measure {x : Float}
    (h : x.isFinite → readNumber (measureText x).toList = some (.real x, [])) :
    Reads (.measure x) := by
  by_cases hx : x.isFinite
  · have hreal : (.measure x : Json Float) = .real x := if_pos hx
    rw [hreal]
    exact reads_number (h hx)
  · have hnull : (.measure x : Json Float) = .null := if_neg hx
    rw [hnull]
    exact reads_null

/-! ## Arrays -/

/-- The items of an array between its brackets. -/
def itemsText (items : List (Json Float)) : String := ",".intercalate (compactItems items)

theorem itemsText_singleton (v : Json Float) : itemsText [v] = v.compact :=
  String.intercalate_singleton

theorem itemsText_cons_cons (v w : Json Float) (items : List (Json Float)) :
    itemsText (v :: w :: items) = v.compact ++ "," ++ itemsText (w :: items) :=
  String.intercalate_cons_cons

theorem exists_itemsText_eq (v : Json Float) (items : List (Json Float)) :
    ∃ tail, itemsText (v :: items) = v.compact ++ tail := by
  cases items with
  | nil => exact ⟨"", by rw [itemsText_singleton, String.append_empty]⟩
  | cons w items => exact ⟨_, by rw [itemsText_cons_cons, String.append_assoc]⟩

theorem readItems_itemsText {v : Json Float} {items : List (Json Float)}
    (h : ∀ w ∈ v :: items, Reads w) {fuel : Nat} (hfuel : 2 * (itemsText (v :: items)).length ≤ fuel)
    (rest : List Char) :
    readItems (fuel + 1) ((itemsText (v :: items)).toList ++ ']' :: rest) =
      some (v :: items, rest) := by
  induction items generalizing v fuel with
  | nil =>
      have hv := h v List.mem_cons_self
      have hpos := hv.length_pos
      rw [itemsText_singleton] at hfuel ⊢
      obtain ⟨fuel, rfl⟩ : ∃ f, fuel = f + 1 := ⟨fuel - 1, by omega⟩
      have hstops : Stops (']' :: rest) := by simp [Stops]
      rw [readItems, hv.readValue_eq fuel _ hstops hfuel]
      rfl
  | cons w items ih =>
      have hv := h v List.mem_cons_self
      have hpos := hv.length_pos
      rw [itemsText_cons_cons] at hfuel ⊢
      simp only [String.length_append] at hfuel
      obtain ⟨fuel, rfl⟩ : ∃ f, fuel = f + 1 := ⟨fuel - 1, by omega⟩
      have hstops : Stops (',' :: ((itemsText (w :: items)).toList ++ ']' :: rest)) := by simp [Stops]
      have hmore : 2 * (itemsText (w :: items)).length ≤ fuel := by omega
      have hrest := ih (fun u hu => h u (List.mem_cons_of_mem _ hu)) hmore
      have hsplit : (v.compact ++ "," ++ itemsText (w :: items)).toList ++ ']' :: rest =
          v.compact.toList ++ ',' :: ((itemsText (w :: items)).toList ++ ']' :: rest) := by
        simp
      rw [hsplit, readItems, hv.readValue_eq fuel _ hstops (by omega)]
      simp only [Option.bind_eq_bind, Option.bind_some]
      rw [skip_cons rfl]
      change (readItems (fuel + 1) _).bind _ = _
      rw [hrest]
      rfl

theorem compact_array (items : List (Json Float)) :
    (compact (.array items)).toList = '[' :: ((itemsText items).toList ++ [']']) := by
  rw [compact, ← itemsText, String.toList_append, String.toList_append]
  rfl

theorem length_compact_array (items : List (Json Float)) :
    (compact (.array items)).length = (itemsText items).length + 2 := by
  rw [← String.length_toList, compact_array, List.length_cons, List.length_append,
    String.length_toList, List.length_singleton]

theorem readValue_bracket {c : Char} (hspace : isSpace c = false) (hclose : c ≠ ']') (fuel : Nat)
    (more : List Char) : readValue (α := Float) (fuel + 1) ('[' :: c :: more) =
      (readItems fuel (c :: more)).map fun (items, rest) => (.array items, rest) := by
  rw [readValue, skip_cons rfl]
  simp only [skip_cons hspace]
  split
  · next heq => exact absurd (List.cons.inj heq).1 hclose
  · rfl

/-- An array is read as it was written where its items are. -/
theorem reads_array {items : List (Json Float)} (h : ∀ v ∈ items, Reads v) :
    Reads (.array items) := by
  refine ⟨⟨'[', _, compact_array items, rfl, by decide⟩, fun fuel rest _ hfuel => ?_⟩
  rw [length_compact_array] at hfuel
  rw [compact_array, List.cons_append, List.append_assoc, List.singleton_append]
  cases items with
  | nil => rfl
  | cons v items =>
      obtain ⟨c, more, hcs, hspace, hclose⟩ := (h v List.mem_cons_self).starts
      obtain ⟨tail, htail⟩ := exists_itemsText_eq v items
      obtain ⟨fuel, rfl⟩ : ∃ f, fuel = f + 1 := ⟨fuel - 1, by omega⟩
      have hitems := readItems_itemsText h (by omega : 2 * (itemsText (v :: items)).length ≤ fuel) rest
      rw [htail, String.toList_append, hcs, List.cons_append, List.cons_append] at hitems ⊢
      rw [readValue_bracket hspace hclose, hitems]
      rfl

/-! ## Records -/

/-- The fields of a record between its braces. -/
def fieldsText (fields : List (String × Json Float)) : String :=
  ",".intercalate (compactFields (fields.map fun (name, v) => (some name, v)))

theorem fieldsText_singleton (name : String) (v : Json Float) :
    fieldsText [(name, v)] = quote name ++ ":" ++ v.compact :=
  String.intercalate_singleton

theorem fieldsText_cons_cons (name : String) (v : Json Float) (f : String × Json Float)
    (fields : List (String × Json Float)) :
    fieldsText ((name, v) :: f :: fields) =
      quote name ++ ":" ++ v.compact ++ "," ++ fieldsText (f :: fields) :=
  String.intercalate_cons_cons

theorem exists_fieldsText_eq (name : String) (v : Json Float) (fields : List (String × Json Float)) :
    ∃ tail, fieldsText ((name, v) :: fields) = quote name ++ tail := by
  cases fields with
  | nil => exact ⟨_, by rw [fieldsText_singleton, String.append_assoc]⟩
  | cons f fields =>
      exact ⟨_, by rw [fieldsText_cons_cons, String.append_assoc, String.append_assoc,
        String.append_assoc]⟩

/-- One field is read up to its value, and then the fields end or go on. -/
theorem readFields_field {v : Json Float} (hv : Reads v) {fuel : Nat}
    (hfuel : 2 * v.compact.length ≤ fuel + 1) (name : String) {rest : List Char} (hrest : Stops rest) :
    readFields (fuel + 2) ((quote name).toList ++ ':' :: (v.compact.toList ++ rest)) =
      match skip rest with
      | '\x7d' :: rest => some ([(some name, v)], rest)
      | ',' :: rest => (readFields (fuel + 1) rest).bind fun (fields, rest) =>
          some ((some name, v) :: fields, rest)
      | _ => none := by
  have hskip (more : List Char) : skip ((quote name).toList ++ more) = (quote name).toList ++ more := by
    rw [toList_quote, List.cons_append, List.cons_append, skip_cons rfl]
  rw [readFields, hskip, readText_quote]
  simp only [Option.bind_eq_bind, Option.bind_some]
  rw [skip_cons rfl]
  simp only
  rw [hv.readValue_eq fuel rest hrest hfuel]
  rfl

theorem readFields_fieldsText {name : String} {v : Json Float} {fields : List (String × Json Float)}
    (h : ∀ f ∈ (name, v) :: fields, Reads f.2) {fuel : Nat}
    (hfuel : 2 * (fieldsText ((name, v) :: fields)).length ≤ fuel) (rest : List Char) :
    readFields (fuel + 1) ((fieldsText ((name, v) :: fields)).toList ++ '\x7d' :: rest) =
      some (((name, v) :: fields).map fun (name, v) => (some name, v), rest) := by
  induction fields generalizing name v fuel with
  | nil =>
      have hv : Reads v := h (name, v) List.mem_cons_self
      have hpos := hv.length_pos
      rw [fieldsText_singleton] at hfuel ⊢
      simp only [String.length_append] at hfuel
      obtain ⟨fuel, rfl⟩ : ∃ f, fuel = f + 1 := ⟨fuel - 1, by omega⟩
      have hstops : Stops ('\x7d' :: rest) := by simp [Stops]
      have hsplit : (quote name ++ ":" ++ v.compact).toList ++ '\x7d' :: rest =
          (quote name).toList ++ ':' :: (v.compact.toList ++ '\x7d' :: rest) := by
        simp
      rw [hsplit, readFields_field hv (by omega) name hstops]
      rfl
  | cons f fields ih =>
      have hv : Reads v := h (name, v) List.mem_cons_self
      have hpos := hv.length_pos
      rw [fieldsText_cons_cons] at hfuel ⊢
      simp only [String.length_append] at hfuel
      obtain ⟨fuel, rfl⟩ : ∃ f, fuel = f + 1 := ⟨fuel - 1, by omega⟩
      have hmore : 2 * (fieldsText (f :: fields)).length ≤ fuel := by omega
      have hrest := ih (fun g hg => h g (List.mem_cons_of_mem _ hg)) hmore
      have hstops : Stops (',' :: ((fieldsText (f :: fields)).toList ++ '\x7d' :: rest)) := by
        simp [Stops]
      have hsplit : (quote name ++ ":" ++ v.compact ++ "," ++ fieldsText (f :: fields)).toList ++
          '\x7d' :: rest = (quote name).toList ++ ':' :: (v.compact.toList ++
            ',' :: ((fieldsText (f :: fields)).toList ++ '\x7d' :: rest)) := by
        simp
      rw [hsplit, readFields_field hv (by omega) name hstops, skip_cons rfl]
      change (readFields (fuel + 1) _).bind _ = _
      rw [hrest]
      rfl

theorem compact_record (fields : List (String × Json Float)) :
    (compact (.record fields)).toList = '\x7b' :: ((fieldsText fields).toList ++ ['\x7d']) := by
  rw [record, compact, ← fieldsText, String.toList_append, String.toList_append]
  rfl

theorem length_compact_record (fields : List (String × Json Float)) :
    (compact (.record fields)).length = (fieldsText fields).length + 2 := by
  rw [← String.length_toList, compact_record, List.length_cons, List.length_append,
    String.length_toList, List.length_singleton]

/-- A record is read as it was written where the values of its fields are. -/
theorem reads_record {fields : List (String × Json Float)} (h : ∀ f ∈ fields, Reads f.2) :
    Reads (.record fields) := by
  refine ⟨⟨'\x7b', _, compact_record fields, rfl, by decide⟩, fun fuel rest _ hfuel => ?_⟩
  rw [length_compact_record] at hfuel
  rw [compact_record, List.cons_append, List.append_assoc, List.singleton_append]
  cases fields with
  | nil => rfl
  | cons f fields =>
      obtain ⟨name, v⟩ := f
      obtain ⟨tail, htail⟩ := exists_fieldsText_eq name v fields
      obtain ⟨fuel, rfl⟩ : ∃ f, fuel = f + 1 := ⟨fuel - 1, by omega⟩
      have hfields := readFields_fieldsText h
        (by omega : 2 * (fieldsText ((name, v) :: fields)).length ≤ fuel) rest
      rw [htail, String.toList_append, toList_quote, List.cons_append, List.cons_append,
        List.cons_append] at hfields ⊢
      have hbrace (more : List Char) :
          readValue (α := Float) (fuel + 2) ('\x7b' :: '"' :: more) =
            (readFields (fuel + 1) ('"' :: more)).map fun (fields, rest) => (.object fields, rest) :=
        rfl
      rw [hbrace, hfields]
      rfl

end Roadworks.Json
