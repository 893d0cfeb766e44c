import Mathlib.Data.List.TakeWhile
import Mathlib.Data.List.Infix
import Roadworks.Text.Blank
/-! # Texts that are cut apart

What a cut of a text gives is said by how the text is put together from its pieces. -/

namespace Roadworks.Text

/-! ## Blanks at the ends -/

/-- All characters are blank. -/
def AllBlank (cs : List Char) : Prop := ∀ c ∈ cs, isBlank c

/-- The text is `core` between blanks, and `core` neither begins nor ends with one. -/
structure IsTrimmed (text core : List Char) : Prop where
  between : ∃ before after, AllBlank before ∧ AllBlank after ∧ text = before ++ core ++ after
  head : ∀ c ∈ core.head?, ¬ isBlank c
  last : ∀ c ∈ core.getLast?, ¬ isBlank c

theorem dropWhile_isBlank_append {before cs : List Char} (hbefore : AllBlank before)
    (hcs : ∀ c ∈ cs.head?, ¬ isBlank c) : (before ++ cs).dropWhile isBlank = cs := by
  rw [List.dropWhile_append_of_pos hbefore]
  cases cs with
  | nil => rfl
  | cons c cs => exact List.dropWhile_cons_of_neg (hcs c rfl)

/-- Every text is blanks and then something that does not begin with a blank. -/
theorem exists_blank_append (cs : List Char) :
    ∃ before core, AllBlank before ∧ (∀ c ∈ core.head?, ¬ isBlank c) ∧ cs = before ++ core := by
  refine ⟨cs.takeWhile isBlank, cs.dropWhile isBlank, ?_, ?_, ?_⟩
  · exact fun c hc => List.mem_takeWhile_imp hc
  · intro c hc
    have hhead := List.head?_dropWhile_not isBlank cs
    rw [Option.mem_def.mp hc] at hhead
    simpa using hhead
  · exact List.takeWhile_append_dropWhile.symm

theorem AllBlank.reverse {cs : List Char} (h : AllBlank cs) : AllBlank cs.reverse :=
  fun c hc => h c (List.mem_reverse.mp hc)

/-- Every text is something that does not end with a blank, and then blanks. -/
theorem exists_append_blank (cs : List Char) :
    ∃ core after, AllBlank after ∧ (∀ c ∈ core.getLast?, ¬ isBlank c) ∧ cs = core ++ after := by
  obtain ⟨after, core, hafter, hcore, hcs⟩ := exists_blank_append cs.reverse
  refine ⟨core.reverse, after.reverse, hafter.reverse, ?_, ?_⟩
  · rwa [List.getLast?_reverse]
  · rw [← List.reverse_append, ← hcs, List.reverse_reverse]

theorem trim_of_isTrimmed {text core : List Char} (h : IsTrimmed text core) : trim text = core := by
  obtain ⟨⟨before, after, hbefore, hafter, rfl⟩, hhead, hlast⟩ := h
  cases core with
  | nil =>
      have hblank : AllBlank (before ++ [] ++ after) := by
        rw [List.append_nil]
        exact List.forall_mem_append.mpr ⟨hbefore, hafter⟩
      rw [trim, List.dropWhile_eq_nil_iff.mpr hblank]
      rfl
  | cons c core =>
      have hstart : ∀ d ∈ (c :: core ++ after).head?, ¬ isBlank d := hhead
      have hend : ∀ d ∈ (c :: core).reverse.head?, ¬ isBlank d := by
        rwa [List.head?_reverse]
      rw [trim, List.append_assoc, dropWhile_isBlank_append hbefore hstart, List.reverse_append,
        dropWhile_isBlank_append hafter.reverse hend, List.reverse_reverse]

theorem exists_isTrimmed (text : List Char) : ∃ core, IsTrimmed text core := by
  obtain ⟨before, rest, hbefore, hrest, htext⟩ := exists_blank_append text
  obtain ⟨core, after, hafter, hcore, hsplit⟩ := exists_append_blank rest
  refine ⟨core, ⟨before, after, hbefore, hafter, ?_⟩, ?_, hcore⟩
  · rw [htext, hsplit, List.append_assoc]
  · intro c hc
    cases core with
    | nil => cases hc
    | cons d core =>
        rw [hsplit] at hrest
        exact hrest c hc

/-- Trimming takes the blanks at both ends and nothing else. -/
theorem trim_eq_iff {text core : List Char} : trim text = core ↔ IsTrimmed text core := by
  constructor
  · rintro rfl
    obtain ⟨core, hcore⟩ := exists_isTrimmed text
    rwa [trim_of_isTrimmed hcore]
  · exact trim_of_isTrimmed

theorem isTrimmed_trim (text : List Char) : IsTrimmed text (trim text) := trim_eq_iff.mp rfl

theorem squeeze_of_allBlank {cs : List Char} (h : AllBlank cs) : squeeze cs = [] := by
  rw [squeeze, List.filter_eq_nil_iff]
  intro c hc
  simp [h c hc]

theorem IsTrimmed.squeeze_eq {text core : List Char} (h : IsTrimmed text core) :
    squeeze core = squeeze text := by
  obtain ⟨before, after, hbefore, hafter, rfl⟩ := h.between
  rw [squeeze_append, squeeze_append, squeeze_of_allBlank hbefore, squeeze_of_allBlank hafter,
    List.nil_append, List.append_nil]

/-- Blanks after a text do not change what is left of it. -/
theorem trim_append_of_allBlank {text after : List Char} (h : AllBlank after) :
    trim (text ++ after) = trim text := by
  obtain ⟨⟨before, behind, hbefore, hbehind, htext⟩, hhead, hlast⟩ := isTrimmed_trim text
  refine trim_eq_iff.mpr ⟨⟨before, behind ++ after, hbefore, ?_, ?_⟩, hhead, hlast⟩
  · exact List.forall_mem_append.mpr ⟨hbehind, h⟩
  · rw [← List.append_assoc, ← htext]

/-! ## Comments -/

/-- The text is empty or begins with a hash. -/
def IsComment (cs : List Char) : Prop := ∀ c ∈ cs.head?, c = '#'

/-- The line says `content`: this stands between blanks, without a hash, and a comment may follow. -/
def Says (line content : List Char) : Prop :=
  ∃ text comment, line = text ++ comment ∧ '#' ∉ text ∧ IsComment comment ∧ IsTrimmed text content

theorem takeWhile_append_comment {text comment : List Char} (htext : '#' ∉ text)
    (hcomment : IsComment comment) : (text ++ comment).takeWhile (· != '#') = text := by
  have hkept : ∀ c ∈ text, (c != '#') = true := by
    intro c hc
    rw [bne_iff_ne]
    rintro rfl
    exact htext hc
  rw [List.takeWhile_append_of_pos hkept]
  cases comment with
  | nil => rw [List.takeWhile_nil, List.append_nil]
  | cons c comment =>
      rw [hcomment c rfl, List.takeWhile_cons_of_neg (by decide), List.append_nil]

/-- A line says what is left of it without its comment and the blanks at its ends. -/
theorem trim_takeWhile_eq_iff {line content : List Char} :
    trim (line.takeWhile (· != '#')) = content ↔ Says line content := by
  rw [trim_eq_iff]
  constructor
  · intro h
    refine ⟨_, line.dropWhile (· != '#'), List.takeWhile_append_dropWhile.symm, ?_, ?_, h⟩
    · intro hmem
      simpa using List.mem_takeWhile_imp hmem
    · intro c hc
      have hhead := List.head?_dropWhile_not (· != '#') line
      rw [Option.mem_def.mp hc] at hhead
      simpa using hhead
  · rintro ⟨text, comment, rfl, htext, hcomment, h⟩
    rwa [takeWhile_append_comment htext hcomment]

/-- Two texts that do not end with a blank do not end with one together. -/
theorem not_isBlank_last_append {a b : List Char} (ha : ∀ c ∈ a.getLast?, ¬ isBlank c)
    (hb : ∀ c ∈ b.getLast?, ¬ isBlank c) : ∀ c ∈ (a ++ b).getLast?, ¬ isBlank c := by
  intro c hc
  rw [List.getLast?_append] at hc
  cases hend : b.getLast? with
  | none =>
      rw [hend, Option.none_or] at hc
      exact ha c hc
  | some d =>
      rw [hend, Option.some_or] at hc
      exact hb c (hend.trans hc)

theorem not_mem_of_allBlank {cs : List Char} (h : AllBlank cs) : '#' ∉ cs :=
  fun hmem => absurd (h _ hmem) (by decide)

/-- A line with an indented core says that core and as much of what follows it as does not end with
blanks. -/
theorem exists_says_append {indent core spread comment : List Char} (hindent : AllBlank indent)
    (hne : core ≠ []) (hhead : ∀ c ∈ core.head?, ¬ isBlank c) (hlast : ∀ c ∈ core.getLast?, ¬ isBlank c)
    (hhash : '#' ∉ core ++ spread) (hcomment : IsComment comment) :
    ∃ rest, squeeze rest = squeeze spread ∧ (∀ c ∈ rest.getLast?, ¬ isBlank c) ∧
      Says (indent ++ core ++ spread ++ comment) (core ++ rest) := by
  obtain ⟨rest, after, hafter, hrest, rfl⟩ := exists_append_blank spread
  refine ⟨rest, ?_, hrest, indent ++ core ++ (rest ++ after), comment, rfl, ?_, hcomment, ?_⟩
  · rw [squeeze_append, squeeze_of_allBlank hafter, List.append_nil]
  · rw [List.append_assoc, List.mem_append, not_or]
    exact ⟨not_mem_of_allBlank hindent, hhash⟩
  · refine ⟨⟨indent, after, hindent, hafter, by simp only [List.append_assoc]⟩, ?_, ?_⟩
    · rwa [List.head?_append_of_ne_nil _ hne]
    · exact not_isBlank_last_append hlast hrest

/-! ## Arrows -/

/-- The text is cut by its first arrow. -/
def IsCutByArrow (text left right : List Char) : Prop :=
  text = left ++ '-' :: '>' :: right ∧ ¬ ['-', '>'] <:+: left

theorem cutArrow_eq_none_iff {cs : List Char} : cutArrow cs = none ↔ ¬ ['-', '>'] <:+: cs := by
  fun_induction cutArrow cs with
  | case1 => simp
  | case2 cs => simp [List.infix_cons_iff]
  | case3 c cs hhead ih =>
      rw [Option.map_eq_none_iff, ih, List.infix_cons_iff, not_or]
      have harrow : ¬ ['-', '>'] <+: c :: cs := by
        rintro ⟨rest, hrest⟩
        cases hrest
        exact hhead rest rfl rfl
      simp [harrow]

theorem cutArrow_eq_some_iff {cs left right : List Char} :
    cutArrow cs = some (left, right) ↔ IsCutByArrow cs left right := by
  fun_induction cutArrow cs generalizing left with
  | case1 => simp [IsCutByArrow]
  | case2 cs =>
      cases left with
      | nil => simp [IsCutByArrow]
      | cons c left =>
          have hlater : ¬ IsCutByArrow ('-' :: '>' :: cs) (c :: left) right := by
            rintro ⟨htext, hleft⟩
            obtain ⟨rfl, hrest⟩ := List.cons_eq_cons.mp htext
            cases left with
            | nil => exact absurd (List.cons_eq_cons.mp hrest).1 (by decide)
            | cons d left =>
                obtain ⟨rfl, _⟩ := List.cons_eq_cons.mp hrest
                exact hleft ⟨[], left, rfl⟩
          simp [hlater]
  | case3 c cs hhead ih =>
      cases left with
      | nil =>
          have hfirst : ¬ IsCutByArrow (c :: cs) [] right := by
            rintro ⟨htext, _⟩
            obtain ⟨rfl, rfl⟩ := List.cons_eq_cons.mp htext
            exact hhead _ rfl rfl
          simp [hfirst]
      | cons d left =>
          rw [Option.map_eq_some_iff]
          constructor
          · rintro ⟨⟨a, b⟩, hcut, hsplit⟩
            obtain ⟨hfirst, rfl⟩ := Prod.mk.inj hsplit
            obtain ⟨rfl, rfl⟩ := List.cons_eq_cons.mp hfirst
            obtain ⟨rfl, hleft⟩ := ih.mp hcut
            refine ⟨rfl, fun hinfix => ?_⟩
            rcases List.infix_cons_iff.mp hinfix with ⟨rest, hrest⟩ | hinfix
            · obtain ⟨rfl, rfl⟩ := List.cons_eq_cons.mp hrest
              exact hhead _ rfl rfl
            · exact hleft hinfix
          · rintro ⟨htext, hleft⟩
            obtain ⟨rfl, hrest⟩ := List.cons_eq_cons.mp htext
            have hinner : ¬ ['-', '>'] <:+: left := fun h => hleft (List.infix_cons h)
            exact ⟨(left, right), ih.mpr ⟨hrest, hinner⟩, rfl⟩

/-- A symbol between blanks holds no arrow. -/
theorem isTrimmed_singleton_arrow {left : List Char} {symbol : Char} (h : IsTrimmed left [symbol]) :
    ¬ ['-', '>'] <:+: left := by
  rintro ⟨before, after, rfl⟩
  have hlength := congrArg List.length h.squeeze_eq
  have hshort : (squeeze [symbol]).length ≤ 1 := List.length_filter_le _ _
  have hdash : squeeze ['-', '>'] = ['-', '>'] := by decide
  rw [squeeze_append, squeeze_append, hdash, List.length_append, List.length_append] at hlength
  simp only [List.length_cons, List.length_nil] at hlength
  omega

/-! ## Lines -/

/-- The line without a carriage return at its end. -/
def withoutReturn (line : List Char) : List Char :=
  if line.getLast? = some '\r' then line.dropLast else line

/-- The pieces between line feeds as lines: a carriage return before a line feed belongs to the line
end, and where nothing follows the last line end there is no further line. -/
def linesOf : List (List Char) → List (List Char)
  | [] => []
  | [last] => if last = [] then [] else [last]
  | piece :: rest => withoutReturn piece :: linesOf rest

/-- The lines of a text without their line ends, which are line feeds with or without a carriage
return before them. -/
def bareLines (cs : List Char) : List (List Char) := linesOf (lines cs)

theorem withoutReturn_eq_or (line : List Char) :
    withoutReturn line = line ∨ line = withoutReturn line ++ ['\r'] := by
  rw [withoutReturn]
  split
  · next h =>
      obtain ⟨front, rfl⟩ := List.getLast?_eq_some_iff.mp h
      exact .inr (by rw [List.dropLast_concat])
  · exact .inl rfl

/-- A carriage return at the end of a line is no part of what the line says. -/
theorem trim_takeWhile_withoutReturn (line : List Char) :
    trim ((withoutReturn line).takeWhile (· != '#')) = trim (line.takeWhile (· != '#')) := by
  rcases withoutReturn_eq_or line with heq | heq
  · rw [heq]
  · have hblank : AllBlank (['\r'].takeWhile (· != '#')) := by
      intro c hc
      obtain rfl : c = '\r' := by simpa using hc
      decide
    conv_rhs => rw [heq, List.takeWhile_append]
    split
    · next hwhole =>
        rw [trim_append_of_allBlank hblank]
        exact congrArg trim ((List.takeWhile_prefix _).eq_of_length hwhole)
    · rfl

theorem lines_of_not_mem {line : List Char} (h : '\n' ∉ line) : lines line = [line] := by
  induction line with
  | nil => rfl
  | cons c line ih =>
      obtain ⟨hc, hline⟩ := List.ne_and_not_mem_of_not_mem_cons h
      rw [lines, if_neg hc.symm, ih hline]

theorem lines_append_cons {line : List Char} (h : '\n' ∉ line) (rest : List Char) :
    lines (line ++ '\n' :: rest) = line :: lines rest := by
  induction line with
  | nil => rfl
  | cons c line ih =>
      obtain ⟨hc, hline⟩ := List.ne_and_not_mem_of_not_mem_cons h
      rw [List.cons_append, lines, if_neg hc.symm, ih hline]

/-- A text that is joined of lines consists of these lines. -/
theorem lines_intercalate {pieces : List (List Char)} (hne : pieces ≠ [])
    (h : ∀ line ∈ pieces, '\n' ∉ line) : lines (['\n'].intercalate pieces) = pieces := by
  induction pieces with
  | nil => exact absurd rfl hne
  | cons piece pieces ih =>
      obtain ⟨hpiece, hpieces⟩ := List.forall_mem_cons.mp h
      cases pieces with
      | nil => rw [List.intercalate_singleton, lines_of_not_mem hpiece]
      | cons next pieces =>
          rw [List.intercalate_cons_cons, List.append_assoc, List.singleton_append,
            lines_append_cons hpiece, ih (List.cons_ne_nil _ _) hpieces]

end Roadworks.Text
