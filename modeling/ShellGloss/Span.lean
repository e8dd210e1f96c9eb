/-!
# Spans

A span is a half-open range of character offsets into a source text. Nothing
forces `start < stop`: spans arrive from outside, and an empty or reversed one
is a value that the checks of `ShellGloss.Node.Check` refuse.
-/

namespace ShellGloss

/-- The offsets `start`, …, `stop - 1`. -/
structure Span where
  start : Nat
  stop : Nat
deriving DecidableEq, Repr, Inhabited

namespace Span

/-- The offset `i` lies in the span. -/
def contains (s : Span) (i : Nat) : Bool :=
  s.start ≤ i && i < s.stop

/-- The span `t` lies within the span `s`. -/
def encloses (s t : Span) : Bool :=
  s.start ≤ t.start && t.stop ≤ s.stop

/-- The number of offsets in the span, none when it is reversed. -/
def length (s : Span) : Nat :=
  s.stop - s.start

/-- The span holds no offset. -/
def isEmpty (s : Span) : Bool :=
  s.stop ≤ s.start

/-- The span moved right by `k` characters. -/
def shift (s : Span) (k : Nat) : Span :=
  ⟨s.start + k, s.stop + k⟩

/-- The span as messages write it: `[3, 5)`. -/
def render (s : Span) : String :=
  "[" ++ toString s.start ++ ", " ++ toString s.stop ++ ")"

/-- The characters of `source` that the span covers, as many as there are. -/
def slice (s : Span) (source : String) : String :=
  String.ofList ((source.toList.drop s.start).take s.length)

@[simp] theorem contains_iff {s : Span} {i : Nat} :
    s.contains i = true ↔ s.start ≤ i ∧ i < s.stop := by
  simp [contains]

@[simp] theorem encloses_iff {s t : Span} :
    s.encloses t = true ↔ s.start ≤ t.start ∧ t.stop ≤ s.stop := by
  simp [encloses]

theorem encloses_eq_false_iff {s t : Span} :
    s.encloses t = false ↔ t.start < s.start ∨ s.stop < t.stop := by
  simp only [encloses, Bool.and_eq_false_iff, decide_eq_false_iff_not, Nat.not_le]

@[simp] theorem isEmpty_iff {s : Span} : s.isEmpty = true ↔ s.stop ≤ s.start := by
  simp [isEmpty]

@[simp] theorem isEmpty_eq_false_iff {s : Span} : s.isEmpty = false ↔ s.start < s.stop := by
  simp [isEmpty]

@[simp] theorem contains_eq_false_iff {s : Span} {i : Nat} :
    s.contains i = false ↔ i < s.start ∨ s.stop ≤ i := by
  simp only [contains, Bool.and_eq_false_iff, decide_eq_false_iff_not]
  omega

/-! ## Slices -/

theorem toList_slice (s : Span) (source : String) :
    (s.slice source).toList = (source.toList.drop s.start).take s.length := by
  rw [slice, String.toList_ofList]

theorem length_toList_slice (start stop : Nat) (source : String) :
    (slice ⟨start, stop⟩ source).toList.length = min stop source.length - start := by
  simp only [toList_slice, length, List.length_take, List.length_drop, String.length_toList]
  omega

/-- A slice ends at the end of the source if the span does not end before. -/
theorem slice_min_stop (start stop : Nat) (source : String) :
    slice ⟨start, min stop source.length⟩ source = slice ⟨start, stop⟩ source := by
  simp only [slice, length, ← String.length_toList]
  congr 1
  rw [List.take_eq_take_iff, List.length_drop]
  omega

/-- What is left of a source from `start` on is a slice and what is left after it. -/
theorem drop_eq_slice_append {start stop : Nat} (h : start ≤ stop) (source : String) :
    source.toList.drop start =
      (slice ⟨start, stop⟩ source).toList ++ source.toList.drop stop := by
  have hstop : source.toList.drop stop = (source.toList.drop start).drop (stop - start) := by
    rw [List.drop_drop, Nat.add_sub_cancel' h]
  rw [toList_slice, hstop]
  exact (List.take_append_drop (stop - start) _).symm

/-- A slice can be cut in two. -/
theorem slice_append {start mid stop : Nat} (h : start ≤ mid) (h' : mid ≤ stop)
    (source : String) :
    slice ⟨start, mid⟩ source ++ slice ⟨mid, stop⟩ source = slice ⟨start, stop⟩ source := by
  apply String.toList_injective
  have hdrop : source.toList.drop mid = (source.toList.drop start).drop (mid - start) := by
    rw [List.drop_drop, Nat.add_sub_cancel' h]
  have hlength : stop - start = (mid - start) + (stop - mid) := by omega
  simp only [String.toList_append, toList_slice, length, hdrop, hlength, List.take_add]

/-- What is left of a source from `start` on is a slice up to its end. -/
theorem toList_slice_to_end (start : Nat) (source : String) :
    (slice ⟨min start source.length, source.length⟩ source).toList = source.toList.drop start := by
  rcases Nat.le_total start source.length with h | h
  · have hend : source.toList.drop source.length = [] :=
      List.drop_eq_nil_of_le (Nat.le_of_eq String.length_toList)
    rw [Nat.min_eq_left h, drop_eq_slice_append h, hend, List.append_nil]
  · have hnone : source.toList.drop start = [] :=
      List.drop_eq_nil_of_le (Nat.le_trans (Nat.le_of_eq String.length_toList) h)
    rw [Nat.min_eq_right h, hnone, toList_slice]
    simp [length]

end Span

end ShellGloss
