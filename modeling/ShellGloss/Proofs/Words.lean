import Mathlib.Data.List.TakeWhile
import ShellGloss.Text.Blank

/-!
# Blanks and words

Trimming takes away the longest blanks at the ends of a text. What is left is known by two
facts, that only blanks were taken and that none is left at the ends (`trim_eq`); all else
about trimming is had from those. Blanks and words stay what they are where ASCII letters
are changed to lower case.
-/

namespace ShellGloss.Text

/-- Every character is a blank. -/
def AllBlank (cs : List Char) : Prop :=
  ∀ c ∈ cs, isBlank c = true

/-- No character is a blank. -/
def Solid (cs : List Char) : Prop :=
  ∀ c ∈ cs, isBlank c = false

/-- The text does not start with a blank. -/
def StartsSolid (cs : List Char) : Prop :=
  ∀ c ∈ cs.head?, isBlank c = false

/-- The text is empty or starts with a blank. -/
def StartsBlank (cs : List Char) : Prop :=
  ∀ c ∈ cs.head?, isBlank c = true

/-- No blank stands at either end. -/
structure IsTrimmed (cs : List Char) : Prop where
  first : StartsSolid cs
  last : StartsSolid cs.reverse

instance (cs : List Char) : Decidable (AllBlank cs) :=
  decidable_of_iff (cs.all isBlank = true) List.all_eq_true

instance (cs : List Char) : Decidable (Solid cs) :=
  decidable_of_iff ((cs.all fun c => !isBlank c) = true) (by simp [Solid])

instance : (cs : List Char) → Decidable (StartsSolid cs)
  | [] => .isTrue fun _ hc => by cases hc
  | c :: _ => decidable_of_iff (isBlank c = false)
    ⟨fun h _ hd => Option.some.inj hd ▸ h, fun h => h c rfl⟩

instance (cs : List Char) : Decidable (IsTrimmed cs) :=
  decidable_of_iff (StartsSolid cs ∧ StartsSolid cs.reverse)
    ⟨fun ⟨first, last⟩ => ⟨first, last⟩, fun h => ⟨h.first, h.last⟩⟩

variable {cs ds lead trail word rest : List Char}

theorem AllBlank.append (h : AllBlank cs) (h' : AllBlank ds) : AllBlank (cs ++ ds) := by
  intro c hc
  rcases List.mem_append.mp hc with hc | hc
  · exact h c hc
  · exact h' c hc

theorem AllBlank.reverse (h : AllBlank cs) : AllBlank cs.reverse := by
  intro c hc
  exact h c (List.mem_reverse.mp hc)

theorem StartsSolid.append (h : StartsSolid cs) (hne : cs ≠ []) (ds : List Char) :
    StartsSolid (cs ++ ds) := by
  cases cs with
  | nil => exact absurd rfl hne
  | cons c cs => exact h

theorem StartsBlank.append (h : StartsBlank cs) (hne : cs ≠ []) (ds : List Char) :
    StartsBlank (cs ++ ds) := by
  cases cs with
  | nil => exact absurd rfl hne
  | cons c cs => exact h

theorem AllBlank.startsBlank (h : AllBlank cs) : StartsBlank cs := by
  intro c hc
  exact h c (List.mem_of_mem_head? hc)

theorem Solid.startsSolid (h : Solid cs) : StartsSolid cs := by
  intro c hc
  exact h c (List.mem_of_mem_head? hc)

theorem Solid.isTrimmed (h : Solid cs) : IsTrimmed cs := by
  refine ⟨h.startsSolid, ?_⟩
  intro c hc
  exact h c (List.mem_reverse.mp (List.mem_of_mem_head? hc))

/-! ## Trimming -/

theorem trimLeft_append (h : AllBlank lead) (cs : List Char) :
    trimLeft (lead ++ cs) = trimLeft cs :=
  List.dropWhile_append_of_pos h

theorem trimLeft_eq_nil (h : AllBlank cs) : trimLeft cs = [] := by
  have happend := trimLeft_append h []
  rwa [List.append_nil] at happend

theorem trimLeft_eq_self (h : StartsSolid cs) : trimLeft cs = cs := by
  cases cs with
  | nil => rfl
  | cons c cs =>
    have hc : isBlank c = false := h c rfl
    simp [trimLeft, hc]

theorem startsSolid_trimLeft (cs : List Char) : StartsSolid (trimLeft cs) := by
  intro c hc
  have hdrop := List.head?_dropWhile_not isBlank cs
  rw [trimLeft] at hc
  rw [hc] at hdrop
  exact hdrop

theorem exists_append_trimLeft (cs : List Char) :
    ∃ lead, AllBlank lead ∧ cs = lead ++ trimLeft cs := by
  refine ⟨cs.takeWhile isBlank, ?_, List.takeWhile_append_dropWhile.symm⟩
  intro c hc
  exact List.mem_takeWhile_imp hc

theorem exists_trimRight_append (cs : List Char) :
    ∃ trail, AllBlank trail ∧ cs = trimRight cs ++ trail := by
  obtain ⟨lead, hlead, h⟩ := exists_append_trimLeft cs.reverse
  refine ⟨lead.reverse, hlead.reverse, ?_⟩
  rw [trimRight, ← List.reverse_append, ← trimLeft, ← h, List.reverse_reverse]

theorem trimRight_append (h : AllBlank trail) (cs : List Char) :
    trimRight (cs ++ trail) = trimRight cs := by
  rw [trimRight, List.reverse_append, ← trimLeft, trimLeft_append h.reverse]
  rfl

theorem trimRight_eq_self (h : StartsSolid cs.reverse) : trimRight cs = cs := by
  rw [trimRight, ← trimLeft, trimLeft_eq_self h, List.reverse_reverse]

/-- Only blanks are taken away, and none is left at the ends. -/
theorem exists_around_trim (cs : List Char) :
    ∃ lead trail, AllBlank lead ∧ AllBlank trail ∧ cs = lead ++ trim cs ++ trail := by
  obtain ⟨lead, hlead, hleft⟩ := exists_append_trimLeft cs
  obtain ⟨trail, htrail, hright⟩ := exists_trimRight_append (trimLeft cs)
  refine ⟨lead, trail, hlead, htrail, ?_⟩
  rw [trim, List.append_assoc, ← hright]
  exact hleft

theorem isTrimmed_trim (cs : List Char) : IsTrimmed (trim cs) := by
  obtain ⟨trail, -, hright⟩ := exists_trimRight_append (trimLeft cs)
  constructor
  case first =>
    intro c hc
    -- the text starts as it did before its end was trimmed
    have hhead : c ∈ (trimLeft cs).head? := by
      rw [hright, List.head?_append, ← trim, Option.mem_def.mp hc]
      rfl
    exact startsSolid_trimLeft cs c hhead
  case last =>
    rw [trim, trimRight, List.reverse_reverse]
    exact startsSolid_trimLeft _

/-- A text without blanks at its ends is what trimming leaves of it among blanks. -/
theorem trim_eq (hlead : AllBlank lead) (htrail : AllBlank trail) (h : IsTrimmed cs) :
    trim (lead ++ cs ++ trail) = cs := by
  rw [trim, List.append_assoc, trimLeft_append hlead]
  by_cases hcs : cs = []
  · subst hcs
    rw [List.nil_append, trimLeft_eq_nil htrail]
    rfl
  · rw [trimLeft_eq_self (h.first.append hcs trail), trimRight_append htrail,
      trimRight_eq_self h.last]

/-- Blanks around a text are trimmed away. -/
theorem trim_around (hlead : AllBlank lead) (htrail : AllBlank trail) (cs : List Char) :
    trim (lead ++ cs ++ trail) = trim cs := by
  obtain ⟨lead', trail', hlead', htrail', h⟩ := exists_around_trim cs
  have heq : lead ++ cs ++ trail = (lead ++ lead') ++ trim cs ++ (trail' ++ trail) := by
    calc lead ++ cs ++ trail
        = lead ++ (lead' ++ trim cs ++ trail') ++ trail := by rw [← h]
      _ = (lead ++ lead') ++ trim cs ++ (trail' ++ trail) := by simp only [List.append_assoc]
  rw [heq, trim_eq (hlead.append hlead') (htrail'.append htrail) (isTrimmed_trim cs)]

/-! ## Words -/

theorem firstWord_eq_nil (h : StartsBlank rest) : firstWord rest = [] := by
  cases rest with
  | nil => rfl
  | cons c rest =>
    have hc : isBlank c = true := h c rfl
    simp [firstWord, hc]

/-- A word ends where a blank stands, or the text. -/
theorem firstWord_append (hword : Solid word) (hrest : StartsBlank rest) :
    firstWord (word ++ rest) = word := by
  have hall : ∀ c ∈ word, (!isBlank c) = true := by
    intro c hc
    rw [hword c hc]
    rfl
  have hnil : rest.takeWhile (fun c => !isBlank c) = [] := firstWord_eq_nil hrest
  rw [firstWord, List.takeWhile_append_of_pos hall, hnil, List.append_nil]

/-- The first word of a text, and what starts with a blank behind it. -/
theorem exists_firstWord_append (cs : List Char) :
    ∃ rest, Solid (firstWord cs) ∧ StartsBlank rest ∧ cs = firstWord cs ++ rest := by
  refine ⟨cs.dropWhile fun c => !isBlank c, ?_, ?_, List.takeWhile_append_dropWhile.symm⟩
  · intro c hc
    simpa using List.mem_takeWhile_imp hc
  · intro c hc
    have hdrop := List.head?_dropWhile_not (fun c => !isBlank c) cs
    rw [hc] at hdrop
    simpa using hdrop

/-- Trimming leaves the first word of a text. -/
theorem firstWord_trim (cs : List Char) : firstWord (trim cs) = firstWord (trimLeft cs) := by
  obtain ⟨trail, htrail, hright⟩ := exists_trimRight_append (trimLeft cs)
  obtain ⟨rest, hsolid, hrest, hword⟩ := exists_firstWord_append (trim cs)
  have hblank : StartsBlank (rest ++ trail) := by
    by_cases h : rest = []
    · rw [h, List.nil_append]
      exact htrail.startsBlank
    · exact hrest.append h trail
  have heq : trimLeft cs = firstWord (trim cs) ++ (rest ++ trail) := by
    rw [← List.append_assoc, ← hword]
    exact hright
  rw [heq, firstWord_append hsolid hblank]

/-- Trimming a text that starts with a word leaves the word, and behind it, at most after
blanks, what trimming leaves of the rest. -/
theorem exists_trim_append (hword : Solid word) (hne : word ≠ []) (hrest : StartsBlank rest) :
    ∃ ds, trim (word ++ rest) = word ++ ds ∧ StartsBlank ds ∧ trimLeft ds = trim rest := by
  obtain ⟨lead, trail, hlead, htrail, h⟩ := exists_around_trim rest
  by_cases hnil : trim rest = []
  · rw [hnil, List.append_nil] at h
    have htrim : trim ([] ++ word ++ rest) = word :=
      trim_eq (fun c hc => by cases hc) (h ▸ hlead.append htrail) hword.isTrimmed
    exact ⟨[], by simpa using htrim, fun c hc => by simp at hc, hnil.symm⟩
  · have htrimmed : IsTrimmed (word ++ (lead ++ trim rest)) := by
      refine ⟨hword.startsSolid.append hne _, ?_⟩
      rw [List.reverse_append, List.reverse_append, List.append_assoc]
      exact (isTrimmed_trim rest).last.append (by simpa using hnil) _
    have htrim : trim ([] ++ (word ++ (lead ++ trim rest)) ++ trail) = _ :=
      trim_eq (fun c hc => by cases hc) htrail htrimmed
    refine ⟨lead ++ trim rest, ?_, ?_, ?_⟩
    · rw [List.nil_append, List.append_assoc, ← h] at htrim
      exact htrim
    · intro c hc
      refine hrest c ?_
      rw [h, List.head?_append, Option.mem_def.mp hc]
      rfl
    · rw [trimLeft_append hlead, trimLeft_eq_self (isTrimmed_trim rest).first]

/-! ## Lower case -/

/-- Between the space and the next line character of the second block there is no blank. -/
theorem isBlank_eq_false {c : Char} (h : 0x20 < c.toNat) (h' : c.toNat < 0x85) :
    isBlank c = false := by
  simp only [isBlank, Bool.or_eq_false_iff, Bool.and_eq_false_iff, decide_eq_false_iff_not,
    beq_eq_false_iff_ne]
  omega

/-- Changing a letter to lower case makes and unmakes no blank. -/
@[simp] theorem isBlank_toLower (c : Char) : isBlank c.toLower = isBlank c := by
  by_cases h : c.val ≥ 'A'.val ∧ c.val ≤ 'Z'.val
  · have hA : 65 ≤ c.toNat := UInt32.le_iff_toNat_le.mp h.1
    have hZ : c.toNat ≤ 90 := UInt32.le_iff_toNat_le.mp h.2
    have hval : c.toLower.val = c.val + ('a'.val - 'A'.val) :=
      congrArg Char.val (dif_pos h)
    have hlower : c.toLower.toNat = c.toNat + 32 := by
      rw [Char.toNat, hval, UInt32.toNat_add]
      exact Nat.mod_eq_of_lt (by change c.toNat + 32 < _; omega)
    rw [isBlank_eq_false (by omega) (by omega), isBlank_eq_false (by omega) (by omega)]
  · have hsame : c.toLower = c := dif_neg h
    rw [hsame]

theorem isBlank_comp_toLower : isBlank ∘ Char.toLower = isBlank :=
  funext isBlank_toLower

theorem trimLeft_map_toLower (cs : List Char) :
    trimLeft (cs.map Char.toLower) = (trimLeft cs).map Char.toLower := by
  rw [trimLeft, List.dropWhile_map, isBlank_comp_toLower, ← trimLeft]

theorem firstWord_map_toLower (cs : List Char) :
    firstWord (cs.map Char.toLower) = (firstWord cs).map Char.toLower := by
  have hcomp : (fun c => !isBlank c) ∘ Char.toLower = fun c => !isBlank c := by
    funext c
    simp
  rw [firstWord, List.takeWhile_map, hcomp, ← firstWord]

theorem StartsBlank.map_toLower (h : StartsBlank cs) : StartsBlank (cs.map Char.toLower) := by
  cases cs with
  | nil => exact h
  | cons c cs =>
    intro d hd
    obtain rfl : c.toLower = d := Option.some.inj hd
    rw [isBlank_toLower]
    exact h c rfl

end ShellGloss.Text
