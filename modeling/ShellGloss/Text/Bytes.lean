/-!
# Cutting a text by bytes

Places in a text are counted in the bytes of UTF-8. A place is a boundary if no
character lies across it; only there may a text be cut.
-/

namespace ShellGloss.Text

/-- The bytes that characters take. -/
def byteCount : List Char → Nat
  | [] => 0
  | c :: cs => c.utf8Size + byteCount cs

/-- What follows the first `n` bytes of a text. A character that lies across that
place is left out. -/
def dropBytes (n : Nat) : List Char → List Char
  | [] => []
  | c :: cs => if n = 0 then c :: cs else dropBytes (n - c.utf8Size) cs

/-- No character of the text lies across the place after `n` bytes. -/
def IsBoundary (n : Nat) (cs : List Char) : Prop :=
  ∃ before after, cs = before ++ after ∧ byteCount before = n

theorem dropBytes_zero (cs : List Char) : dropBytes 0 cs = cs := by
  cases cs <;> simp [dropBytes]

/-- A cut at a boundary gives back what is there. -/
theorem dropBytes_append (before after : List Char) :
    dropBytes (byteCount before) (before ++ after) = after := by
  induction before with
  | nil => exact dropBytes_zero after
  | cons c before ih =>
    have hpos := c.utf8Size_pos
    have hne : c.utf8Size + byteCount before ≠ 0 := by omega
    have hsub : c.utf8Size + byteCount before - c.utf8Size = byteCount before := by omega
    rw [byteCount, List.cons_append, dropBytes, if_neg hne, hsub, ih]

theorem length_dropBytes_le (n : Nat) (cs : List Char) : (dropBytes n cs).length ≤ cs.length := by
  induction cs generalizing n with
  | nil => simp [dropBytes]
  | cons c cs ih =>
    rw [dropBytes]
    split
    · exact Nat.le_refl _
    · exact Nat.le_succ_of_le (ih _)

/-- A text of which at least one byte is dropped becomes shorter. -/
theorem length_dropBytes_lt {n : Nat} {cs : List Char} (hn : 0 < n) (hcs : cs ≠ []) :
    (dropBytes n cs).length < cs.length := by
  cases cs with
  | nil => exact absurd rfl hcs
  | cons c cs =>
    rw [dropBytes, if_neg (by omega), List.length_cons]
    exact Nat.lt_succ_of_le (length_dropBytes_le _ _)

/-! ## Parts between two places -/

/-- A text in two, with `n` bytes in the first part, if that place is a boundary. -/
def splitAtByte? (n : Nat) : List Char → Option (List Char × List Char)
  | [] => if n = 0 then some ([], []) else none
  | c :: cs =>
    if n = 0 then some ([], c :: cs)
    else if n < c.utf8Size then none
    else (splitAtByte? (n - c.utf8Size) cs).map fun parts => (c :: parts.1, parts.2)

/-- The part of a text from the byte `first` to the byte `stop`, if these come in this
order and both are boundaries. -/
def slice? (first stop : Nat) (cs : List Char) : Option (List Char) :=
  if first ≤ stop then
    (splitAtByte? first cs).bind fun parts => (splitAtByte? (stop - first) parts.2).map Prod.fst
  else none

theorem byteCount_append (cs ds : List Char) :
    byteCount (cs ++ ds) = byteCount cs + byteCount ds := by
  induction cs with
  | nil => simp [byteCount]
  | cons c cs ih => rw [List.cons_append, byteCount, byteCount, ih, Nat.add_assoc]

theorem splitAtByte?_append (before after : List Char) :
    splitAtByte? (byteCount before) (before ++ after) = some (before, after) := by
  induction before with
  | nil => cases after <;> simp [splitAtByte?, byteCount]
  | cons c before ih =>
    have hpos := c.utf8Size_pos
    have hne : c.utf8Size + byteCount before ≠ 0 := by omega
    have hge : ¬ c.utf8Size + byteCount before < c.utf8Size := by omega
    rw [byteCount, List.cons_append, splitAtByte?, if_neg hne, if_neg hge, Nat.add_sub_cancel_left,
      ih]
    rfl

/-- A text is in two parts at a boundary, and nowhere else. -/
theorem splitAtByte?_eq_some_iff {n : Nat} {cs before after : List Char} :
    splitAtByte? n cs = some (before, after) ↔ cs = before ++ after ∧ byteCount before = n := by
  constructor
  · intro h
    induction cs generalizing n before with
    | nil =>
      rw [splitAtByte?] at h
      split at h
      · simp_all [byteCount]
      · cases h
    | cons c cs ih =>
      rw [splitAtByte?] at h
      split at h
      · simp_all [byteCount]
      · split at h
        · cases h
        · obtain ⟨⟨before', after'⟩, hparts, heq⟩ := Option.map_eq_some_iff.mp h
          obtain ⟨rfl, rfl⟩ := Prod.mk.inj heq
          obtain ⟨rfl, hcount⟩ := ih hparts
          refine ⟨rfl, ?_⟩
          dsimp only at hcount ⊢
          rw [byteCount]
          omega
  · rintro ⟨rfl, rfl⟩
    exact splitAtByte?_append before after

/-- A part is there exactly where the text can be cut at both places. -/
theorem slice?_eq_some_iff {first stop : Nat} {cs part : List Char} :
    slice? first stop cs = some part ↔ ∃ before after, cs = before ++ (part ++ after) ∧
      byteCount before = first ∧ first + byteCount part = stop := by
  rw [slice?]
  constructor
  · intro h
    split at h
    · rename_i hle
      obtain ⟨⟨before, rest⟩, hrest, h⟩ := Option.bind_eq_some_iff.mp h
      obtain ⟨⟨part', after⟩, hpart, heq⟩ := Option.map_eq_some_iff.mp h
      obtain rfl : part' = part := heq
      obtain ⟨rfl, hbefore⟩ := splitAtByte?_eq_some_iff.mp hrest
      obtain ⟨rfl, hcount⟩ := splitAtByte?_eq_some_iff.mp hpart
      exact ⟨before, after, rfl, hbefore, by omega⟩
    · cases h
  · rintro ⟨before, after, rfl, rfl, rfl⟩
    rw [if_pos (Nat.le_add_right _ _), splitAtByte?_append, Option.bind_some,
      Nat.add_sub_cancel_left, splitAtByte?_append]
    rfl

theorem eq_nil_of_byteCount_eq_zero {cs : List Char} (h : byteCount cs = 0) : cs = [] := by
  cases cs with
  | nil => rfl
  | cons c cs =>
    have hpos := c.utf8Size_pos
    rw [byteCount] at h
    omega

/-- Of two ways to cut a text the one that comes first in bytes comes first in characters. -/
theorem exists_append_of_byteCount_le {before after before' after' : List Char}
    (h : before ++ after = before' ++ after') (hle : byteCount before ≤ byteCount before') :
    ∃ part, before' = before ++ part ∧ after = part ++ after' := by
  rcases List.append_eq_append_iff.mp h with ⟨part, hbefore, hafter⟩ | ⟨part, hbefore, hafter⟩
  · exact ⟨part, hbefore, hafter⟩
  · have hpart : part = [] := by
      rw [hbefore, byteCount_append] at hle
      exact eq_nil_of_byteCount_eq_zero (by omega)
    subst hpart
    exact ⟨[], by simpa using hbefore.symm, by simpa using hafter.symm⟩

/-- There is a part between two boundaries that are in order, and between no other places. -/
theorem exists_slice?_iff {first stop : Nat} {cs : List Char} :
    (∃ part, slice? first stop cs = some part) ↔
      first ≤ stop ∧ IsBoundary first cs ∧ IsBoundary stop cs := by
  constructor
  · rintro ⟨part, hpart⟩
    obtain ⟨before, after, rfl, rfl, rfl⟩ := slice?_eq_some_iff.mp hpart
    refine ⟨Nat.le_add_right _ _, ⟨before, part ++ after, rfl, rfl⟩, before ++ part, after, ?_, ?_⟩
    · rw [List.append_assoc]
    · rw [byteCount_append]
  · rintro ⟨hle, ⟨before, after, rfl, rfl⟩, before', after', heq, rfl⟩
    obtain ⟨part, rfl, rfl⟩ := exists_append_of_byteCount_le heq hle
    exact ⟨part, slice?_eq_some_iff.mpr ⟨before, after', rfl, rfl, (byteCount_append _ _).symm⟩⟩

/-! ## ASCII -/

/-- The character takes one byte. -/
def isAscii (c : Char) : Bool :=
  c.toNat < 0x80

theorem utf8Size_of_isAscii {c : Char} (h : isAscii c = true) : c.utf8Size = 1 := by
  have hlt : c.toNat < 0x80 := of_decide_eq_true h
  exact Char.utf8Size_eq_one_iff.mpr (UInt32.le_iff_toNat_le.mpr (Nat.le_of_lt_succ hlt))

/-- The bytes of an ASCII text are its characters. -/
theorem byteCount_of_isAscii {cs : List Char} (h : ∀ c ∈ cs, isAscii c = true) :
    byteCount cs = cs.length := by
  induction cs with
  | nil => rfl
  | cons c cs ih =>
    rw [List.forall_mem_cons] at h
    rw [byteCount, utf8Size_of_isAscii h.1, ih h.2, List.length_cons, Nat.add_comm]

end ShellGloss.Text
