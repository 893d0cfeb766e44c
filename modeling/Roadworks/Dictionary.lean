/-!
Finite maps with a written order. The entries are kept in increasing order of their keys, and the
type says so, so two maps with the same entries are equal and every listing is in key order.
-/

namespace Roadworks

/-- A finite map whose entries increase by key. -/
structure Dictionary (κ ν : Type) [LT κ] where
  entries : List (κ × ν)
  sorted : entries.Pairwise (·.1 < ·.1)

/-- Texts, the keys of most maps, are ordered by their characters. -/
instance (priority := 2000) transText : Trans (α := String) (· < ·) (· < ·) (· < ·) :=
  ⟨String.lt_trans⟩

namespace Dictionary

variable {κ ν : Type} [LT κ]

/-- The map without entries. -/
def empty : Dictionary κ ν := ⟨[], .nil⟩

instance : Inhabited (Dictionary κ ν) := ⟨empty⟩

instance [BEq κ] [BEq ν] : BEq (Dictionary κ ν) := ⟨fun a b => a.entries == b.entries⟩

/-- The map has no entries. -/
def isEmpty (d : Dictionary κ ν) : Bool := d.entries.isEmpty

/-- The keys in increasing order. -/
def keys (d : Dictionary κ ν) : List κ := d.entries.map (·.1)

/-- The value of a key. -/
def get? [BEq κ] (d : Dictionary κ ν) (k : κ) : Option ν := d.entries.lookup k

/-- Puts the entry for `k` into its place; its value is made from the one that was there. -/
def place [DecidableLT κ] (k : κ) (f : Option ν → ν) : List (κ × ν) → List (κ × ν)
  | [] => [(k, f none)]
  | (k', v) :: rest =>
    if k < k' then (k, f none) :: (k', v) :: rest
    else if k' < k then (k', v) :: place k f rest
    else (k', f (some v)) :: rest

theorem lt_of_mem_place [DecidableLT κ] {k low : κ} {f : Option ν → ν} {l : List (κ × ν)}
    (hk : low < k) (hl : ∀ e ∈ l, low < e.1) : ∀ e ∈ place k f l, low < e.1 := by
  fun_induction place k f l with
  | case1 => simpa using hk
  | case2 k' v rest h => simpa [hk] using hl
  | case3 k' v rest h h' ih =>
    simp only [List.mem_cons, forall_eq_or_imp] at hl ⊢
    exact ⟨hl.1, ih hl.2⟩
  | case4 k' v rest h h' => simpa using hl

theorem place_sorted [DecidableLT κ] [Trans (α := κ) (· < ·) (· < ·) (· < ·)]
    {k : κ} {f : Option ν → ν} {l : List (κ × ν)} (hl : l.Pairwise (·.1 < ·.1)) :
    (place k f l).Pairwise (·.1 < ·.1) := by
  fun_induction place k f l with
  | case1 => simp
  | case2 k' v rest h =>
    refine List.pairwise_cons.mpr ⟨?_, hl⟩
    intro e he
    rcases List.mem_cons.mp he with rfl | he
    · exact h
    · exact Trans.trans h ((List.pairwise_cons.mp hl).1 e he)
  | case3 k' v rest h h' ih =>
    obtain ⟨hfirst, hrest⟩ := List.pairwise_cons.mp hl
    exact List.pairwise_cons.mpr ⟨lt_of_mem_place h' hfirst, ih hrest⟩
  | case4 k' v rest h h' => simpa using hl

/-- The key stands before all keys of the entries, so none of them is its own. -/
theorem lookup_eq_none_of_lt [BEq κ] [LawfulBEq κ] [Std.Irrefl (α := κ) (· < ·)]
    {k : κ} {l : List (κ × ν)} (h : ∀ e ∈ l, k < e.1) : l.lookup k = none := by
  rw [List.lookup_eq_none_iff]
  intro e he
  simp only [bne_iff_ne, ne_eq]
  rintro rfl
  exact Std.Irrefl.irrefl _ (h e he)

/-- Sorted entries are known by the values of their keys. -/
theorem eq_of_lookup_eq [BEq κ] [LawfulBEq κ] [Std.Irrefl (α := κ) (· < ·)]
    [Std.Trichotomous (α := κ) (· < ·)] [Trans (α := κ) (· < ·) (· < ·) (· < ·)]
    {l m : List (κ × ν)} (hl : l.Pairwise (·.1 < ·.1)) (hm : m.Pairwise (·.1 < ·.1))
    (h : ∀ k, l.lookup k = m.lookup k) : l = m := by
  induction l generalizing m with
  | nil =>
      cases m with
      | nil => rfl
      | cons e m =>
          have := h e.1
          rw [List.lookup_cons] at this
          simp at this
  | cons d l ih =>
      cases m with
      | nil => simpa [List.lookup_cons] using h d.1
      | cons e m =>
          obtain ⟨a, v⟩ := d
          obtain ⟨b, w⟩ := e
          obtain ⟨hal, hrest⟩ := List.pairwise_cons.mp hl
          obtain ⟨hbm, hmore⟩ := List.pairwise_cons.mp hm
          have before {x y : κ} {z : ν} {t : List (κ × ν)} (hxy : x < y) (ht : ∀ e ∈ t, y < e.1) :
              ((y, z) :: t).lookup x = none := by
            refine lookup_eq_none_of_lt fun e he => ?_
            rcases List.mem_cons.mp he with rfl | he
            · exact hxy
            · exact Trans.trans hxy (ht e he)
          obtain rfl : a = b := by
            refine Std.Trichotomous.trichotomous (r := (· < ·)) _ _ (fun hlt => ?_) (fun hlt => ?_)
            · have := h a
              rw [before hlt hbm] at this
              simp at this
            · have := h b
              rw [before hlt hal] at this
              simp at this
          obtain rfl : v = w := by simpa [List.lookup_cons] using h a
          refine congrArg _ (ih hrest hmore fun k => ?_)
          by_cases hk : k = a
          · subst hk
            rw [lookup_eq_none_of_lt hal, lookup_eq_none_of_lt hbm]
          · simpa [List.lookup_cons, beq_eq_false_iff_ne.mpr hk] using h k

/-- A map is known by the values of its keys. -/
theorem ext_get? [BEq κ] [LawfulBEq κ] [Std.Irrefl (α := κ) (· < ·)]
    [Std.Trichotomous (α := κ) (· < ·)] [Trans (α := κ) (· < ·) (· < ·) (· < ·)]
    {d e : Dictionary κ ν} (h : ∀ k, d.get? k = e.get? k) : d = e := by
  cases d with
  | mk l hl =>
      cases e with
      | mk m hm => simpa using eq_of_lookup_eq hl hm h

/-- Every key has one entry, so an entry is found by its key. -/
theorem mem_entries_iff [BEq κ] [LawfulBEq κ] [Std.Irrefl (α := κ) (· < ·)]
    {d : Dictionary κ ν} {k : κ} {v : ν} : (k, v) ∈ d.entries ↔ d.get? k = some v := by
  rw [get?, List.lookup_eq_some_iff]
  constructor
  · intro h
    obtain ⟨before, after, hsplit⟩ := List.append_of_mem h
    refine ⟨before, after, hsplit, fun e he => ?_⟩
    have hlt : e.1 < k := by
      have hsorted := d.sorted
      rw [hsplit, List.pairwise_append] at hsorted
      exact hsorted.2.2 e he (k, v) List.mem_cons_self
    rw [bne_iff_ne]
    rintro rfl
    exact Std.Irrefl.irrefl _ hlt
  · rintro ⟨before, after, hsplit, _⟩
    rw [hsplit]
    exact List.mem_append_right _ List.mem_cons_self

variable [DecidableLT κ] [Trans (α := κ) (· < ·) (· < ·) (· < ·)]

/-- The map with the value of `k` made from the one it had. -/
def alter (d : Dictionary κ ν) (k : κ) (f : Option ν → ν) : Dictionary κ ν :=
  ⟨place k f d.entries, place_sorted d.sorted⟩

/-- The map with `v` as the value of `k`. -/
def insert (d : Dictionary κ ν) (k : κ) (v : ν) : Dictionary κ ν := d.alter k fun _ => v

/-- The map of a list of entries, in which a later entry replaces an earlier one. -/
def ofList (entries : List (κ × ν)) : Dictionary κ ν :=
  entries.foldl (fun d (k, v) => d.insert k v) empty

/-! ### A map from its entries -/

section

variable [Std.Irrefl (α := κ) (· < ·)]

theorem place_of_forall_lt {k : κ} {f : Option ν → ν} {l : List (κ × ν)} (h : ∀ e ∈ l, e.1 < k) :
    place k f l = l ++ [(k, f none)] := by
  induction l with
  | nil => rfl
  | cons e l ih =>
      obtain ⟨hfirst, hrest⟩ := List.forall_mem_cons.mp h
      have hnot : ¬ k < e.1 := fun hlt => Std.Irrefl.irrefl _ (Trans.trans hlt hfirst)
      rw [place, if_neg hnot, if_pos hfirst, ih hrest, List.cons_append]

/-- Entries that increase by key are put behind one another. -/
theorem entries_foldl_insert {l : List (κ × ν)} {d : Dictionary κ ν}
    (hl : l.Pairwise (·.1 < ·.1)) (h : ∀ e ∈ d.entries, ∀ f ∈ l, e.1 < f.1) :
    (l.foldl (fun d (k, v) => d.insert k v) d).entries = d.entries ++ l := by
  induction l generalizing d with
  | nil => exact (List.append_nil _).symm
  | cons e l ih =>
      obtain ⟨hfirst, hrest⟩ := List.pairwise_cons.mp hl
      have hplace : (d.insert e.1 e.2).entries = d.entries ++ [e] :=
        place_of_forall_lt fun a ha => h a ha e List.mem_cons_self
      rw [List.foldl_cons, ih hrest, hplace, List.append_assoc, List.singleton_append]
      intro a ha f hf
      rw [hplace] at ha
      rcases List.mem_append.mp ha with ha | ha
      · exact h a ha f (List.mem_cons_of_mem _ hf)
      · obtain rfl : a = e := List.mem_singleton.mp ha
        exact hfirst f hf

/-- A map is made again from its entries. -/
theorem ofList_entries (d : Dictionary κ ν) : ofList d.entries = d := by
  have hentries : (ofList d.entries).entries = d.entries :=
    entries_foldl_insert d.sorted (by simp [empty])
  cases d with
  | mk l hl =>
      generalize ofList l = e at hentries
      cases e with
      | mk m hm => simpa using hentries

end

/-! ### Values after a change -/

theorem lookup_place [BEq κ] [LawfulBEq κ] [Std.Irrefl (α := κ) (· < ·)]
    [Std.Trichotomous (α := κ) (· < ·)] {k j : κ} {f : Option ν → ν} {l : List (κ × ν)}
    (hl : l.Pairwise (·.1 < ·.1)) :
    (place k f l).lookup j = if j == k then some (f (l.lookup k)) else l.lookup j := by
  fun_induction place k f l with
  | case1 => simp [List.lookup_cons]; split <;> simp_all
  | case2 k' v rest h =>
      have hnone : ((k', v) :: rest).lookup k = none := by
        refine lookup_eq_none_of_lt fun e he => ?_
        rcases List.mem_cons.mp he with rfl | he
        · exact h
        · exact Trans.trans h ((List.pairwise_cons.mp hl).1 e he)
      rw [hnone, List.lookup_cons]
      cases j == k <;> rfl
  | case3 k' v rest h h' ih =>
      have hne : (k == k') = false := by
        rw [beq_eq_false_iff_ne]
        rintro rfl
        exact h h'
      rw [List.lookup_cons, List.lookup_cons, List.lookup_cons, ih (List.pairwise_cons.mp hl).2, hne]
      by_cases hk : j = k
      · simp [hk, hne]
      · cases j == k' <;> simp [hk]
  | case4 k' v rest h h' =>
      obtain rfl : k = k' := Std.Trichotomous.trichotomous (r := (· < ·)) _ _ h h'
      rw [List.lookup_cons, List.lookup_cons, List.lookup_cons]
      by_cases hj : j == k <;> simp [hj]

/-- Only the value of the altered key changes. -/
theorem get?_alter [BEq κ] [LawfulBEq κ] [Std.Irrefl (α := κ) (· < ·)]
    [Std.Trichotomous (α := κ) (· < ·)] (d : Dictionary κ ν) (k j : κ) (f : Option ν → ν) :
    (d.alter k f).get? j = if j == k then some (f (d.get? k)) else d.get? j :=
  lookup_place d.sorted

theorem get?_insert [BEq κ] [LawfulBEq κ] [Std.Irrefl (α := κ) (· < ·)]
    [Std.Trichotomous (α := κ) (· < ·)] (d : Dictionary κ ν) (k j : κ) (v : ν) :
    (d.insert k v).get? j = if j == k then some v else d.get? j :=
  get?_alter d k j _

end Dictionary

end Roadworks
