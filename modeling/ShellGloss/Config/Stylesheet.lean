/-!
# Stylesheets

A stylesheet gives texts of styles to names. Its entries are kept in ascending
order of their names, each name once, so that two stylesheets that give the same
texts to the same names are the same.
-/

namespace ShellGloss

/-- Texts of styles by name. Names are compared by code point. -/
structure Stylesheet where
  entries : List (String × String)
  ascending : entries.Pairwise fun a b => a.1 < b.1

namespace Stylesheet

/-- The stylesheet without entries. -/
def empty : Stylesheet :=
  ⟨[], .nil⟩

/-- The text for a name. -/
def get? (s : Stylesheet) (name : String) : Option String :=
  s.entries.lookup name

/-! ## Insertion -/

/-- Puts an entry in its place, instead of one of the same name. -/
def insertEntry (name text : String) : List (String × String) → List (String × String)
  | [] => [(name, text)]
  | e :: es =>
    if name < e.1 then (name, text) :: e :: es
    else if name = e.1 then (name, text) :: es
    else e :: insertEntry name text es

theorem mem_insertEntry {name text : String} {es : List (String × String)}
    {e : String × String} (h : e ∈ insertEntry name text es) : e = (name, text) ∨ e ∈ es := by
  induction es with
  | nil => simpa [insertEntry] using h
  | cons d ds ih =>
    rw [insertEntry] at h
    split at h
    · simpa using h
    · split at h
      · rcases List.mem_cons.1 h with h | h
        · exact .inl h
        · exact .inr (List.mem_cons_of_mem _ h)
      · rcases List.mem_cons.1 h with h | h
        · exact .inr (h ▸ List.mem_cons_self)
        · exact (ih h).imp id (List.mem_cons_of_mem _)

theorem pairwise_insertEntry {name text : String} {es : List (String × String)}
    (h : es.Pairwise fun a b => a.1 < b.1) :
    (insertEntry name text es).Pairwise fun a b => a.1 < b.1 := by
  induction es with
  | nil => simp [insertEntry]
  | cons d ds ih =>
    obtain ⟨hd, hds⟩ := List.pairwise_cons.1 h
    rw [insertEntry]
    split
    · rename_i hlt
      refine List.pairwise_cons.2 ⟨?_, h⟩
      intro e he
      rcases List.mem_cons.1 he with he | he
      · exact he ▸ hlt
      · exact String.lt_trans hlt (hd e he)
    · split
      · rename_i heq
        exact List.pairwise_cons.2 ⟨fun e he => by simpa [heq] using hd e he, hds⟩
      · rename_i hge hne
        refine List.pairwise_cons.2 ⟨?_, ih hds⟩
        intro e he
        rcases mem_insertEntry he with he | he
        · subst he
          exact Std.lt_of_le_of_ne (String.not_lt.1 hge) fun h => hne h.symm
        · exact hd e he

/-- The stylesheet with one more entry, instead of one of the same name. -/
def insert (s : Stylesheet) (name text : String) : Stylesheet :=
  ⟨insertEntry name text s.entries, pairwise_insertEntry s.ascending⟩

/-- The stylesheet with more entries, the later instead of the earlier. -/
def insertAll (s : Stylesheet) (entries : List (String × String)) : Stylesheet :=
  entries.foldl (fun s e => s.insert e.1 e.2) s

/-- The stylesheet of a list of entries. -/
def ofList (entries : List (String × String)) : Stylesheet :=
  empty.insertAll entries

/-! ## Removal -/

/-- The stylesheet without the entries of the given names. -/
def eraseAll (s : Stylesheet) (names : List String) : Stylesheet :=
  ⟨s.entries.filter fun e => !names.contains e.1, s.ascending.filter _⟩

/-! ## What is found -/

theorem lookup_cons (e : String × String) (es : List (String × String)) (n : String) :
    (e :: es).lookup n = if n = e.1 then some e.2 else es.lookup n := by
  obtain ⟨name, text⟩ := e
  rw [List.lookup_cons]
  by_cases h : n = name
  · simp [h]
  · rw [beq_false_of_ne h, if_neg h]

theorem lookup_insertEntry (name text : String) (es : List (String × String)) (n : String) :
    (insertEntry name text es).lookup n = if n = name then some text else es.lookup n := by
  induction es with
  | nil => rw [insertEntry, lookup_cons]
  | cons e es ih =>
    rw [insertEntry]
    split
    · rw [lookup_cons]
    · split
      · rename_i heq
        by_cases h : n = name <;> simp [lookup_cons, ← heq, h]
      · rename_i hne
        rw [lookup_cons, lookup_cons, ih]
        by_cases h : n = name
        · simp [h, hne]
        · simp [h]

@[simp] theorem get?_insert (s : Stylesheet) (name text n : String) :
    (s.insert name text).get? n = if n = name then some text else s.get? n :=
  lookup_insertEntry name text s.entries n

@[simp] theorem get?_eraseAll (s : Stylesheet) (names : List String) (n : String) :
    (s.eraseAll names).get? n = if n ∈ names then none else s.get? n := by
  obtain ⟨es, hes⟩ := s
  simp only [get?, eraseAll]
  clear hes
  induction es with
  | nil => simp
  | cons e es ih =>
    by_cases he : e.1 ∈ names
    · have hkept : (e :: es).filter (fun e => !names.contains e.1) =
          es.filter fun e => !names.contains e.1 := by
        simp [he]
      rw [hkept, ih, lookup_cons]
      by_cases hn : n = e.1
      · simp [hn, he]
      · simp [hn]
    · have hkept : (e :: es).filter (fun e => !names.contains e.1) =
          e :: es.filter fun e => !names.contains e.1 := by
        simp [he]
      rw [hkept, lookup_cons, ih, lookup_cons]
      by_cases hn : n = e.1
      · simp [hn, he]
      · simp [hn]

/-- Entries of ascending names are found afterwards. -/
theorem get?_insertAll (s : Stylesheet) {es : List (String × String)}
    (h : es.Pairwise fun a b => a.1 < b.1) (n : String) :
    (s.insertAll es).get? n = (es.lookup n).or (s.get? n) := by
  rw [insertAll]
  induction es generalizing s with
  | nil => simp
  | cons e es ih =>
    obtain ⟨he, hes⟩ := List.pairwise_cons.1 h
    rw [List.foldl_cons, ih _ hes, get?_insert, lookup_cons]
    by_cases hn : n = e.1
    · -- no later entry has the name of this one
      have hlater : es.lookup e.1 = none := by
        rw [List.lookup_eq_none_iff]
        intro d hd
        have hne : e.1 ≠ d.1 := fun heq => String.lt_irrefl _ (heq ▸ he d hd)
        simpa using hne
      simp [hn, hlater]
    · simp [hn]

end Stylesheet

end ShellGloss
