import Roadworks.Proofs.Grammar.Reading
/-! # Rule texts that are read as they were written

However the lines of a list of rules are spaced and commented, they are read as that list. The symbols
and bodies may hold the very marks that lines are cut at. -/

namespace Roadworks

open Text

variable {α : Type}

/-! ## The characters of numbers -/

/-- The character is no blank and neither begins a comment nor ends a weight. -/
def IsUnmarked (c : Char) : Prop := ¬ isBlank c ∧ c ≠ '#' ∧ c ≠ ')'

instance (c : Char) : Decidable (IsUnmarked c) := inferInstanceAs (Decidable (_ ∧ _ ∧ _))

theorem isUnmarked_of_toNat {c : Char} (hlow : 41 < c.toNat) (hhigh : c.toNat < 133) :
    IsUnmarked c := by
  have hhash : ('#' : Char).toNat = 35 := rfl
  have hclose : (')' : Char).toNat = 41 := rfl
  refine ⟨?_, ?_, ?_⟩
  · simp [isBlank, blankRanges]
    omega
  · rintro rfl
    omega
  · rintro rfl
    omega

theorem isUnmarked_of_isDigit {c : Char} (h : Decimal.isDigit c) : IsUnmarked c := by
  simp only [Decimal.isDigit, Bool.and_eq_true, decide_eq_true_eq] at h
  have hlow : 48 ≤ c.toNat := h.1
  have hhigh : c.toNat ≤ 57 := h.2
  exact isUnmarked_of_toNat (by omega) (by omega)

theorem isUnmarked_of_toLower {c : Char} (h : IsUnmarked c.toLower) : IsUnmarked c := by
  by_cases hupper : 65 ≤ c.toNat ∧ c.toNat ≤ 90
  · exact isUnmarked_of_toNat (by omega) (by omega)
  · have hlower : c.toLower = c := by
      rw [Char.toLower, dif_neg]
      exact hupper
    rwa [hlower] at h

theorem isUnmarked_of_dropWhile {cs : List Char} (h : ∀ c ∈ cs.dropWhile Decimal.isDigit, IsUnmarked c) :
    ∀ c ∈ cs, IsUnmarked c := by
  rw [← List.takeWhile_append_dropWhile (p := Decimal.isDigit) (l := cs), List.forall_mem_append]
  exact ⟨fun c hc => isUnmarked_of_isDigit (List.mem_takeWhile_imp hc), h⟩

theorem isUnmarked_of_readExponent {cs : List Char} {e : Int}
    (h : Decimal.readExponent cs = some (e, [])) : ∀ c ∈ cs, IsUnmarked c := by
  unfold Decimal.readExponent at h
  split at h
  next negative digits hsign =>
    have hdigits : ∀ c ∈ digits, IsUnmarked c := by
      split at h
      · cases h
      · have hrest := (Prod.mk.inj (Option.some.inj h)).2
        apply isUnmarked_of_dropWhile
        rw [hrest]
        exact List.forall_mem_nil _
    split at hsign
    · cases hsign
      exact List.forall_mem_cons.mpr ⟨by decide, hdigits⟩
    · cases hsign
      exact List.forall_mem_cons.mpr ⟨by decide, hdigits⟩
    · cases hsign
      exact hdigits

theorem isUnmarked_of_special [Scalar α] {cs : List Char} {w : α} (h : Decimal.special cs = some w) :
    ∀ c ∈ cs, IsUnmarked c := by
  have hlower : ∀ c ∈ cs.map Char.toLower, IsUnmarked c := by
    unfold Decimal.special at h
    split at h
    · next heq => exact heq ▸ List.forall_iff_forall_mem.mp (by decide)
    · next heq => exact heq ▸ List.forall_iff_forall_mem.mp (by decide)
    · next heq => exact heq ▸ List.forall_iff_forall_mem.mp (by decide)
    · cases h
  exact fun c hc => isUnmarked_of_toLower (hlower _ (List.mem_map_of_mem hc))

/-- What stands after the digits of a number is an exponent. -/
theorem isUnmarked_of_power {rest : List Char} {f : Int → α} {w : α}
    (h : (match rest with
      | [] => some (f 0)
      | c :: rest =>
        if c = 'e' ∨ c = 'E' then
          match Decimal.readExponent rest with
          | some (e, []) => some (f e)
          | _ => none
        else none) = some w) : ∀ c ∈ rest, IsUnmarked c := by
  split at h
  · exact List.forall_mem_nil _
  · next c rest =>
      split at h
      · next hmark =>
          split at h
          · next hexponent =>
              refine List.forall_mem_cons.mpr ⟨?_, isUnmarked_of_readExponent hexponent⟩
              rcases hmark with rfl | rfl <;> decide
          · cases h
      · cases h

theorem isUnmarked_of_readUnsigned [Scalar α] {negative : Bool} {cs : List Char} {w : α}
    (h : Decimal.readUnsigned negative cs = some w) : ∀ c ∈ cs, IsUnmarked c := by
  unfold Decimal.readUnsigned at h
  dsimp only at h
  split at h
  · next rest hpoint =>
      split at h
      · obtain ⟨_, hspecial, _⟩ := Option.map_eq_some_iff.mp h
        exact isUnmarked_of_special hspecial
      · apply isUnmarked_of_dropWhile
        rw [hpoint]
        exact List.forall_mem_cons.mpr ⟨by decide, isUnmarked_of_dropWhile (isUnmarked_of_power h)⟩
  · split at h
    · obtain ⟨_, hspecial, _⟩ := Option.map_eq_some_iff.mp h
      exact isUnmarked_of_special hspecial
    · exact isUnmarked_of_dropWhile (isUnmarked_of_power h)

/-- A text that is read as a number holds no blank, no hash and no bracket. -/
theorem isUnmarked_of_read [Scalar α] {cs : List Char} {w : α} (h : Decimal.read cs = some w) :
    ∀ c ∈ cs, IsUnmarked c := by
  unfold Decimal.read at h
  split at h
  · exact List.forall_mem_cons.mpr ⟨by decide, isUnmarked_of_readUnsigned h⟩
  · exact List.forall_mem_cons.mpr ⟨by decide, isUnmarked_of_readUnsigned h⟩
  · exact isUnmarked_of_readUnsigned h

/-! ## Written rules -/

/-- The characters are blanks within a line. -/
def IsSpacing (cs : List Char) : Prop := ∀ c ∈ cs, isBlank c ∧ c ≠ '\n'

/-- The text is a comment on the rest of a line, or nothing. -/
def EndsLine (cs : List Char) : Prop := IsComment cs ∧ '\n' ∉ cs

/-- The text is a body with blanks between its symbols and at its ends. -/
inductive SpacesOut : List Char → Word → Prop where
  | nil : SpacesOut [] []
  | blank {c : Char} {spread : List Char} {body : Word} :
    isBlank c → c ≠ '\n' → SpacesOut spread body → SpacesOut (c :: spread) body
  | symbol {c : Char} {spread : List Char} {body : Word} :
    SpacesOut spread body → SpacesOut (c :: spread) (c :: body)

/-- A rule that a line can be written for: neither its symbol nor its body holds a blank or a hash. -/
def IsWritable (rule : Char × Production α) : Prop :=
  (¬ isBlank rule.1 ∧ rule.1 ≠ '#') ∧ ∀ c ∈ rule.2.body, ¬ isBlank c ∧ c ≠ '#'

variable [Scalar α]

/-- A line that is written for a rule: `X -> (weight) body`, or `X -> body` where the weight is one and
the body does not begin with a bracket. -/
inductive IsWritten : Char × Production α → List Char → Prop where
  | weighted {symbol : Char} {p : Production α}
    {indent gap lead inner number outer spread comment : List Char} :
    IsSpacing indent → IsSpacing gap → IsSpacing lead → IsSpacing inner →
    Decimal.read number = some p.weight → IsSpacing outer → SpacesOut spread p.body →
    EndsLine comment →
    IsWritten (symbol, p) (indent ++ symbol :: gap ++ '-' :: '>' :: lead ++
      '(' :: (inner ++ number ++ outer) ++ ')' :: spread ++ comment)
  | plain {symbol : Char} {p : Production α} {indent gap spread comment : List Char} :
    p.weight = 1.0 → p.body.head? ≠ some '(' → IsSpacing indent → IsSpacing gap →
    SpacesOut spread p.body → EndsLine comment →
    IsWritten (symbol, p) (indent ++ symbol :: gap ++ '-' :: '>' :: spread ++ comment)

/-- Lines that are written for a list of rules, among lines without a rule. -/
inductive AreWritten : List (Char × Production α) → List (List Char) → Prop where
  | nil : AreWritten [] []
  | gap {indent comment : List Char} {rules : List (Char × Production α)} {lines : List (List Char)} :
    IsSpacing indent → EndsLine comment → AreWritten rules lines →
    AreWritten rules ((indent ++ comment) :: lines)
  | rule {rule : Char × Production α} {line : List Char} {rules : List (Char × Production α)}
    {lines : List (List Char)} :
    IsWritten rule line → AreWritten rules lines → AreWritten (rule :: rules) (line :: lines)

/-! ## Reading what was written -/

omit [Scalar α] in
theorem SpacesOut.squeeze_eq {spread : List Char} {body : Word} (h : SpacesOut spread body)
    (hbody : ∀ c ∈ body, ¬ isBlank c) : squeeze spread = body := by
  induction h with
  | nil => rfl
  | blank hblank _ _ ih =>
      rw [squeeze, List.filter_cons_of_neg (by simpa using hblank)]
      exact ih hbody
  | symbol _ ih =>
      obtain ⟨hc, hbody⟩ := List.forall_mem_cons.mp hbody
      rw [squeeze, List.filter_cons_of_pos (by simpa using hc)]
      exact congrArg _ (ih hbody)

omit [Scalar α] in
theorem SpacesOut.mem_or {spread : List Char} {body : Word} (h : SpacesOut spread body) :
    ∀ c ∈ spread, c ∈ body ∨ isBlank c ∧ c ≠ '\n' := by
  induction h with
  | nil => exact List.forall_mem_nil _
  | blank hblank hne _ ih => exact List.forall_mem_cons.mpr ⟨.inr ⟨hblank, hne⟩, ih⟩
  | symbol _ ih =>
      refine List.forall_mem_cons.mpr ⟨.inl List.mem_cons_self, fun c hc => ?_⟩
      exact (ih c hc).imp_left (List.mem_cons_of_mem _)

theorem IsSpacing.allBlank {cs : List Char} (h : IsSpacing cs) : AllBlank cs := fun c hc => (h c hc).1

theorem IsSpacing.not_mem {cs : List Char} (h : IsSpacing cs) {mark : Char}
    (hmark : ¬ isBlank mark ∨ mark = '\n') : mark ∉ cs := by
  intro hmem
  rcases hmark with hmark | hmark
  · exact hmark (h _ hmem).1
  · exact (h _ hmem).2 hmark

theorem isTrimmed_singleton {symbol : Char} {gap : List Char} (hsymbol : ¬ isBlank symbol)
    (hgap : IsSpacing gap) : IsTrimmed (symbol :: gap) [symbol] where
  between := ⟨[], gap, List.forall_mem_nil _, hgap.allBlank, rfl⟩
  head := by
    rintro c ⟨⟩
    exact hsymbol
  last := by
    rintro c ⟨⟩
    exact hsymbol

omit [Scalar α] in
theorem SpacesOut.hash_not_mem {spread : List Char} {body : Word} (h : SpacesOut spread body)
    (hbody : ∀ c ∈ body, ¬ isBlank c ∧ c ≠ '#') : '#' ∉ spread := by
  intro hmem
  rcases h.mem_or _ hmem with hmem | ⟨hblank, _⟩
  · exact (hbody _ hmem).2 rfl
  · exact absurd hblank (by decide)

omit [Scalar α] in
theorem SpacesOut.newline_not_mem {spread : List Char} {body : Word} (h : SpacesOut spread body)
    (hbody : ∀ c ∈ body, ¬ isBlank c ∧ c ≠ '#') : '\n' ∉ spread := by
  intro hmem
  rcases h.mem_or _ hmem with hmem | ⟨_, hne⟩
  · exact (hbody _ hmem).1 (by decide)
  · exact hne rfl

omit [Scalar α] in
/-- A line that is written for a rule is cut by the arrow after its symbol, whatever marks stand
between the arrow and the body. -/
theorem exists_isCutByArrow {symbol : Char} {p : Production α}
    {indent gap spread comment : List Char} (marks : List Char) (hrule : IsWritable (symbol, p))
    (hindent : IsSpacing indent) (hgap : IsSpacing gap) (hmarks : '#' ∉ marks)
    (hlast : ∀ c ∈ marks.getLast?, ¬ isBlank c) (hspread : SpacesOut spread p.body)
    (hcomment : EndsLine comment) :
    ∃ content rest,
      Says (indent ++ symbol :: gap ++ '-' :: '>' :: marks ++ spread ++ comment) content ∧
      IsCutByArrow content (symbol :: gap) (marks ++ rest) ∧ squeeze rest = p.body ∧
      ∀ c ∈ rest.getLast?, ¬ isBlank c := by
  obtain ⟨⟨hsymbol, hhash⟩, hbody⟩ := hrule
  have hhead : ∀ c ∈ (symbol :: gap ++ ['-', '>'] ++ marks).head?, ¬ isBlank c := by
    rintro c ⟨⟩
    exact hsymbol
  have harrow : ∀ c ∈ (symbol :: gap ++ ['-', '>']).getLast?, ¬ isBlank c := by
    rw [List.getLast?_append]
    rintro c ⟨⟩
    decide
  have hnone : '#' ∉ symbol :: gap ++ ['-', '>'] ++ marks ++ spread := by
    simp only [List.mem_append, List.mem_cons, List.not_mem_nil, or_false, not_or]
    exact ⟨⟨⟨⟨hhash.symm, not_mem_of_allBlank hgap.allBlank⟩, by decide, by decide⟩, hmarks⟩,
      hspread.hash_not_mem hbody⟩
  obtain ⟨rest, hrest, hend, hcontent⟩ := exists_says_append hindent.allBlank (by simp) hhead
    (not_isBlank_last_append harrow hlast) hnone hcomment.1
  have hline : indent ++ symbol :: gap ++ '-' :: '>' :: marks ++ spread ++ comment =
      indent ++ (symbol :: gap ++ ['-', '>'] ++ marks) ++ spread ++ comment := by simp
  refine ⟨_, rest, hline ▸ hcontent, ⟨by simp, ?_⟩, ?_, hend⟩
  · exact isTrimmed_singleton_arrow (isTrimmed_singleton hsymbol hgap)
  · rw [hrest, hspread.squeeze_eq fun c hc => (hbody c hc).1]

/-- A number between blanks, as it stands in the brackets of a weight. -/
theorem isTrimmed_number {inner number outer : List Char} {w : α} (hinner : IsSpacing inner)
    (hnumber : Decimal.read number = some w) (houter : IsSpacing outer) :
    IsTrimmed (inner ++ number ++ outer) number where
  between := ⟨inner, outer, hinner.allBlank, houter.allBlank, rfl⟩
  head c hc := (isUnmarked_of_read hnumber c (List.mem_of_mem_head? hc)).1
  last c hc := (isUnmarked_of_read hnumber c (List.mem_of_mem_getLast? hc)).1

theorem not_mem_weight {inner number outer : List Char} {w : α} (hinner : IsSpacing inner)
    (hnumber : Decimal.read number = some w) (houter : IsSpacing outer) (mark : Char)
    (hmark : ¬ isBlank mark ∨ mark = '\n') (hne : ¬ IsUnmarked mark) :
    mark ∉ inner ++ number ++ outer := by
  simp only [List.mem_append, not_or]
  exact ⟨⟨hinner.not_mem hmark, fun hmem => hne (isUnmarked_of_read hnumber _ hmem)⟩,
    houter.not_mem hmark⟩

/-- A line that is written for a rule holds it. -/
theorem IsWritten.holdsRule {rule : Char × Production α} {line : List Char}
    (h : IsWritten rule line) (hrule : IsWritable rule) : HoldsRule line (some rule) := by
  cases h with
  | @plain symbol p indent gap spread comment hweight hopen hindent hgap hspread hcomment =>
      obtain ⟨content, rest, hcontent, hcut, hbody, _⟩ := exists_isCutByArrow [] hrule
        hindent hgap List.not_mem_nil (by rintro c ⟨⟩) hspread hcomment
      have hsqueeze : squeeze (trim rest) = p.body := by
        rw [(isTrimmed_trim rest).squeeze_eq, hbody]
      have hplain : (trim rest).head? ≠ some '(' := by
        intro hhead
        obtain ⟨tail, htail⟩ := List.head?_eq_some_iff.mp hhead
        rw [htail] at hsqueeze
        exact hopen (hsqueeze ▸ rfl)
      have hholds := HoldsRule.plain (α := α) hcontent hcut (isTrimmed_singleton hrule.1.1 hgap)
        (isTrimmed_trim rest) hplain
      rw [hsqueeze, ← hweight] at hholds
      simpa using hholds
  | @weighted symbol p indent gap lead inner number outer spread comment hindent hgap hlead hinner
      hnumber houter hspread hcomment =>
      have hhash := not_mem_weight hinner hnumber houter '#' (.inl (by decide)) (by decide)
      have hclose := not_mem_weight hinner hnumber houter ')' (.inl (by decide)) (by decide)
      generalize hweight : inner ++ number ++ outer = weight at hhash hclose
      have hlast : ∀ c ∈ ('(' :: weight ++ [')']).getLast?, ¬ isBlank c := by
        rw [List.getLast?_append]
        rintro c ⟨⟩
        decide
      have hmarks : '#' ∉ lead ++ ('(' :: weight ++ [')']) := by
        simp only [List.mem_append, List.mem_cons, List.not_mem_nil, or_false, not_or]
        exact ⟨not_mem_of_allBlank hlead.allBlank, ⟨by decide, hhash⟩, by decide⟩
      have hend : ∀ c ∈ (lead ++ ('(' :: weight ++ [')'])).getLast?, ¬ isBlank c := by
        rwa [List.getLast?_append_of_ne_nil _ (by simp)]
      obtain ⟨content, rest, hcontent, hcut, hbody, hrest⟩ := exists_isCutByArrow _ hrule hindent hgap
        hmarks hend hspread hcomment
      have hright : IsTrimmed (lead ++ ('(' :: weight ++ [')']) ++ rest)
          ('(' :: weight ++ ')' :: rest) := by
        refine ⟨⟨lead, [], hlead.allBlank, List.forall_mem_nil _, by simp⟩, ?_, ?_⟩
        · rintro c ⟨⟩
          decide
        · have := not_isBlank_last_append hlast hrest
          rwa [List.append_assoc] at this
      have hholds := HoldsRule.weighted hcontent hcut (isTrimmed_singleton hrule.1.1 hgap) hright hclose
        (hweight ▸ isTrimmed_number hinner hnumber houter) hnumber
      rw [hbody] at hholds
      simpa using hholds

/-- A line without a rule holds none. -/
theorem holdsRule_none {indent comment : List Char} (hindent : IsSpacing indent)
    (hcomment : EndsLine comment) :
    HoldsRule (indent ++ comment) (none : Option (Char × Production α)) := by
  refine .blank ⟨indent, comment, rfl, not_mem_of_allBlank hindent.allBlank, hcomment.1, ?_⟩
  exact ⟨⟨indent, [], hindent.allBlank, List.forall_mem_nil _, by simp⟩, by rintro c ⟨⟩,
    by rintro c ⟨⟩⟩

/-- The lines that are written for a list of rules hold its rules. -/
theorem AreWritten.exists_holdsRule {rules : List (Char × Production α)} {lines : List (List Char)}
    (h : AreWritten rules lines) (hrules : ∀ rule ∈ rules, IsWritable rule) :
    ∃ held, List.Forall₂ HoldsRule lines held ∧ held.reduceOption = rules := by
  induction h with
  | nil => exact ⟨[], .nil, rfl⟩
  | gap hindent hcomment _ ih =>
      obtain ⟨held, hheld, rfl⟩ := ih hrules
      exact ⟨none :: held, .cons (holdsRule_none hindent hcomment) hheld, rfl⟩
  | @rule rule line _ _ hline _ ih =>
      obtain ⟨hrule, hrules⟩ := List.forall_mem_cons.mp hrules
      obtain ⟨held, hheld, rfl⟩ := ih hrules
      exact ⟨some rule :: held, .cons (hline.holdsRule hrule) hheld, rfl⟩

theorem IsWritten.newline_not_mem {rule : Char × Production α} {line : List Char}
    (h : IsWritten rule line) (hrule : IsWritable rule) : '\n' ∉ line := by
  have hsymbol : '\n' ≠ rule.1 := fun heq => hrule.1.1 (heq ▸ by decide)
  have hspacing {cs : List Char} (hcs : IsSpacing cs) : '\n' ∉ cs := hcs.not_mem (.inr rfl)
  cases h with
  | plain _ _ hindent hgap hspread hcomment =>
      simp only [List.mem_append, List.mem_cons, not_or]
      exact ⟨⟨⟨hspacing hindent, hsymbol, hspacing hgap⟩, by decide, by decide,
        hspread.newline_not_mem hrule.2⟩, hcomment.2⟩
  | weighted hindent hgap hlead hinner hnumber houter hspread hcomment =>
      have hweight := not_mem_weight hinner hnumber houter '\n' (.inr rfl) (by decide)
      simp only [List.mem_append, List.mem_cons, not_or] at hweight ⊢
      exact ⟨⟨⟨⟨⟨hspacing hindent, hsymbol, hspacing hgap⟩, by decide, by decide, hspacing hlead⟩,
        by decide, hweight⟩, by decide, hspread.newline_not_mem hrule.2⟩, hcomment.2⟩

theorem AreWritten.newline_not_mem {rules : List (Char × Production α)} {lines : List (List Char)}
    (h : AreWritten rules lines) (hrules : ∀ rule ∈ rules, IsWritable rule) :
    ∀ line ∈ lines, '\n' ∉ line := by
  induction h with
  | nil => exact List.forall_mem_nil _
  | gap hindent hcomment _ ih =>
      refine List.forall_mem_cons.mpr ⟨?_, ih hrules⟩
      rw [List.mem_append, not_or]
      exact ⟨hindent.not_mem (.inr rfl), hcomment.2⟩
  | rule hline _ ih =>
      obtain ⟨hrule, hrules⟩ := List.forall_mem_cons.mp hrules
      exact List.forall_mem_cons.mpr ⟨hline.newline_not_mem hrule, ih hrules⟩

/-- Rules are read from the lines that are written for them, grouped by symbol. -/
theorem Rules.read_written {rules : List (Char × Production α)} {lines : List (List Char)}
    (hrules : ∀ rule ∈ rules, IsWritable rule) (h : AreWritten rules lines) :
    ∃ d : Rules α, Rules.read (String.ofList (['\n'].intercalate lines)) = .ok d ∧ d.Groups rules := by
  obtain ⟨held, hheld, rfl⟩ := h.exists_holdsRule hrules
  have hlines : readLines (α := α) 1 (Text.lines (['\n'].intercalate lines)) = readLines 1 lines := by
    cases lines with
    | nil => rfl
    | cons line lines =>
        rw [lines_intercalate (List.cons_ne_nil _ _) (h.newline_not_mem hrules)]
  refine ⟨_, ?_, groups_foldl_add held.reduceOption⟩
  rw [Rules.read, String.toList_ofList, hlines, readLines_of_forall₂ hheld]
  rfl

/-- Rules for half an arrow and for a bracket, whose bodies hold an arrow and brackets. -/
def knotted : List (Char × Production Float) :=
  [('-', ⟨1.0, "->".toList⟩), ('(', ⟨0.5, "F)".toList⟩), ('-', ⟨2.0, "(-".toList⟩)]

/-- The rules of `knotted`, spaced and commented in several ways. -/
theorem areWritten_knotted : AreWritten knotted
    ["--> - > # an arrow".toList, "".toList, "\t( -> ( 0.5\t) F)\r".toList, " # no rule".toList,
      "-->(2)(-".toList] := by
  have hspacing {cs : List Char} (h : cs.Forall fun c => isBlank c ∧ c ≠ '\n') : IsSpacing cs :=
    List.forall_iff_forall_mem.mp h
  have hnone : IsSpacing [] := hspacing (by decide)
  have hspace : IsSpacing [' '] := hspacing (by decide)
  have htab : IsSpacing ['\t'] := hspacing (by decide)
  have hend : EndsLine [] := ⟨by rintro c ⟨⟩, by decide⟩
  have hcomment (cs : List Char) (h : '\n' ∉ cs) : EndsLine ('#' :: cs) :=
    ⟨by rintro c ⟨⟩; rfl, by simpa using h⟩
  have hblank {spread : List Char} {body : Word} (h : SpacesOut spread body) :
      SpacesOut (' ' :: spread) body := .blank (by decide) (by decide) h
  have hreturn : SpacesOut ['\r'] [] := .blank (by decide) (by decide) .nil
  have hopen : "->".toList.head? ≠ some '(' := by decide
  have hspread : SpacesOut " - > ".toList "->".toList :=
    hblank (.symbol (hblank (.symbol (hblank .nil))))
  have harrow : IsWritten ('-', (⟨1.0, "->".toList⟩ : Production Float))
      "--> - > # an arrow".toList :=
    .plain (p := ⟨1.0, "->".toList⟩) rfl hopen hnone hnone hspread
      (hcomment " an arrow".toList (by decide))
  have hbracket : IsWritten ('(', (⟨0.5, "F)".toList⟩ : Production Float))
      "\t( -> ( 0.5\t) F)\r".toList :=
    .weighted (p := ⟨0.5, "F)".toList⟩) htab hspace hspace hspace
      (show Decimal.read "0.5".toList = _ from rfl) htab
      (hblank (.symbol (.symbol hreturn))) hend
  have hlast : IsWritten ('-', (⟨2.0, "(-".toList⟩ : Production Float)) "-->(2)(-".toList :=
    .weighted (p := ⟨2.0, "(-".toList⟩) hnone hnone hnone hnone
      (show Decimal.read ['2'] = _ from rfl) hnone (.symbol (.symbol .nil)) hend
  exact .rule harrow (.gap hnone hend (.rule hbracket
    (.gap hspace (hcomment " no rule".toList (by decide)) (.rule hlast .nil))))

theorem read_knotted :
    ∃ d : Rules Float,
      Rules.read "--> - > # an arrow\n\n\t( -> ( 0.5\t) F)\r\n # no rule\n-->(2)(-" = .ok d ∧
        d.get? '-' = some [⟨1.0, "->".toList⟩, ⟨2.0, "(-".toList⟩] ∧
        d.get? '(' = some [⟨0.5, "F)".toList⟩] ∧ d.get? ')' = none := by
  have hwritable {symbol : Char} {p : Production Float} (hsymbol : ¬ isBlank symbol ∧ symbol ≠ '#')
      (h : p.body.Forall fun c => ¬ isBlank c ∧ c ≠ '#') : IsWritable (symbol, p) :=
    ⟨hsymbol, List.forall_iff_forall_mem.mp h⟩
  have hrules : ∀ rule ∈ knotted, IsWritable rule := by
    rw [← List.forall_iff_forall_mem]
    exact ⟨hwritable (by decide) (by decide), hwritable (by decide) (by decide),
      hwritable (by decide) (by decide)⟩
  obtain ⟨d, hread, hgroups⟩ := Rules.read_written hrules areWritten_knotted
  refine ⟨d, hread, ?_, ?_, ?_⟩
  · exact hgroups.get?_eq '-'
  · exact hgroups.get?_eq '('
  · exact hgroups.get?_eq ')'

end Roadworks
