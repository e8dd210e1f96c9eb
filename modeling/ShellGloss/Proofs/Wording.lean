import ShellGloss.Json.Fields
import ShellGloss.Node.Check

/-!
# Wording

What an error is about can be told from its wording. The wording of a violation is that of
no other violation (`Violation.message_injective`): it gives away the kind and the span at
fault, the rule, and everything that the rule is measured against. The wording for a field
that is missing or repeated is that of no other error (`DecodeError.eq_of_message`).

Names and numbers stand in a message without quotes. They can be cut off all the same: the
name of a kind ends at the first blank, and a number where its digits end
(`eq_of_append_mark`).
-/

namespace ShellGloss

/-! ## Names and numbers in a text -/

section Mark

variable {c : Char} {mark s s' t t' : String}

/-- A text can be cut in one way only before a mark whose first character comes in no
earlier place. -/
theorem eq_of_append_mark (h : s ++ (mark ++ t) = s' ++ (mark ++ t')) (hs : c ∉ s.toList)
    (hs' : c ∉ s'.toList) (hmark : mark.toList.head? = some c) : s = s' ∧ t = t' := by
  -- what one of the first parts has more than the other would start with the mark
  have hmore {cs cs' more rest rest' : List Char} (hcs : c ∉ cs') (hfirst : cs' = cs ++ more)
      (hrest : mark.toList ++ rest = more ++ rest') : more = [] := by
    cases more with
    | nil => rfl
    | cons d more =>
      have hhead : d = c := by
        have hheads := congrArg List.head? hrest
        rw [List.head?_append, hmark] at hheads
        exact (Option.some.inj hheads).symm
      rw [hfirst, hhead] at hcs
      exact absurd (List.mem_append_right cs List.mem_cons_self) hcs
  have hlists : s.toList ++ (mark.toList ++ t.toList) = s'.toList ++ (mark.toList ++ t'.toList) := by
    rw [← String.toList_append, ← String.toList_append, h, String.toList_append,
      String.toList_append]
  have hsame : s.toList = s'.toList := by
    rcases List.append_eq_append_iff.mp hlists with ⟨more, hfirst, hrest⟩ | ⟨more, hfirst, hrest⟩
    · rw [hfirst, hmore hs' hfirst hrest, List.append_nil]
    · rw [hfirst, hmore hs hfirst hrest, List.append_nil]
  obtain rfl := String.toList_injective hsame
  rw [String.append_right_inj, String.append_right_inj] at h
  exact ⟨rfl, h⟩

/-- A number is written in digits. -/
theorem not_mem_toString (hc : c.isDigit = false) (n : Nat) : c ∉ (toString n).toList := by
  intro hmem
  rw [Nat.toString_eq_ofList_toDigits, String.toList_ofList] at hmem
  rw [Nat.isDigit_of_mem_toDigits (by decide) (by decide) hmem] at hc
  cases hc

theorem toString_injective {m n : Nat} (h : toString m = toString n) : m = n := by
  have hvalue (k : Nat) : Nat.ofDigitChars 10 (toString k).toList 0 = k := by
    rw [Nat.toString_eq_ofList_toDigits, String.toList_ofList]
    exact Nat.ofDigitChars_toDigits (by decide) (by decide)
  rw [← hvalue m, h, hvalue]

theorem eq_of_toString_append {m n : Nat}
    (h : toString m ++ (mark ++ t) = toString n ++ (mark ++ t'))
    (hmark : mark.toList.head? = some c) (hc : c.isDigit = false) : m = n ∧ t = t' := by
  obtain ⟨hnumber, hrest⟩ :=
    eq_of_append_mark h (not_mem_toString hc m) (not_mem_toString hc n) hmark
  exact ⟨toString_injective hnumber, hrest⟩

theorem Kind.blank_not_mem_name (k : Kind) : ' ' ∉ k.name.toList := by
  cases k <;> simp [name.eq_def]

theorem Kind.eq_of_name_append {k k' : Kind} (h : k.name ++ (mark ++ t) = k'.name ++ (mark ++ t'))
    (hmark : mark.toList.head? = some ' ') : k = k' ∧ t = t' := by
  obtain ⟨hname, hrest⟩ := eq_of_append_mark h k.blank_not_mem_name k'.blank_not_mem_name hmark
  exact ⟨name_injective hname, hrest⟩

theorem Span.eq_of_render_append {a b : Span} (h : a.render ++ t = b.render ++ t') :
    a = b ∧ t = t' := by
  simp only [render, String.append_assoc, String.append_right_inj] at h
  obtain ⟨hstart, hstop⟩ := eq_of_toString_append (c := ',') h rfl rfl
  obtain ⟨hstop, hrest⟩ := eq_of_toString_append (c := ')') hstop rfl rfl
  obtain ⟨start, stop⟩ := a
  obtain ⟨start', stop'⟩ := b
  obtain rfl : start = start' := hstart
  obtain rfl : stop = stop' := hstop
  exact ⟨rfl, hrest⟩

theorem Span.render_injective {a b : Span} (h : a.render = b.render) : a = b :=
  (eq_of_render_append (congrArg (· ++ "") h)).1

end Mark

/-! ## Violations -/

/-- The first letters of the wording, by which the rules about spans can be told apart. -/
def SpanFault.letters : SpanFault → List Char
  | emptyOrReversed => ['r', 'a']
  | outsideParent .. => ['l', 'i']
  | overlapsSibling _ => ['o', 'v']
  | notContiguous _ => ['i', 's']
  | partOutsideNode => ['e', 'm']
  | argumentBeforeOption => ['a', 'r']
  | outputBeforeOperator => ['o', 'u']
  | beyondSource _ => ['s', 't']

theorem SpanFault.take_message (f : SpanFault) : f.message.toList.take 2 = f.letters := by
  cases f <;> simp [message.eq_def, letters]

theorem SpanFault.message_injective {f g : SpanFault} (h : f.message = g.message) : f = g := by
  have hletters : f.letters = g.letters := by
    rw [← take_message, ← take_message, h]
  cases f with
  | outsideParent k s =>
    cases g with
    | outsideParent k' s' =>
      simp only [message.eq_def, String.append_assoc, String.append_right_inj] at h
      obtain ⟨rfl, hspan⟩ := Kind.eq_of_name_append h rfl
      rw [Span.render_injective hspan]
    | _ => simp [letters] at hletters
  | overlapsSibling stop =>
    cases g with
    | overlapsSibling stop' => rw [toString_injective ((String.append_right_inj _).mp h)]
    | _ => simp [letters] at hletters
  | notContiguous stop =>
    cases g with
    | notContiguous stop' => rw [toString_injective ((String.append_right_inj _).mp h)]
    | _ => simp [letters] at hletters
  | beyondSource length =>
    cases g with
    | beyondSource length' =>
      simp only [message.eq_def, String.append_left_inj, String.append_right_inj] at h
      rw [toString_injective h]
    | _ => simp [letters] at hletters
  | _ => cases g <;> first | rfl | simp [letters] at hletters

theorem ContentFault.message_injective {f g : ContentFault} (h : f.message = g.message) :
    f = g := by
  have hhead : f.message.toList.head? = g.message.toList.head? := by rw [h]
  cases f with
  | manyPrograms count =>
    cases g with
    | manyPrograms count' =>
      simp only [message.eq_def, String.append_left_inj, String.append_right_inj] at h
      rw [toString_injective h]
    | ungroupable k' => simp [message.eq_def] at hhead
  | ungroupable k =>
    cases g with
    | manyPrograms count' => simp [message.eq_def] at hhead
    | ungroupable k' =>
      simp only [message.eq_def, String.append_left_inj, String.append_right_inj] at h
      rw [Kind.name_injective h]

/-- The wording of a rule about spans is never that of a rule about contents: there the
name of a kind stands where the former has a word that is none. -/
theorem Violation.message_badSpan_ne (k k' : Kind) (s s' : Span) (f : SpanFault)
    (f' : ContentFault) : message (.badSpan k s f) ≠ message (.badContent k' s' f') := by
  intro h
  have hword : "invalid range " = "invalid " ++ ("range" ++ " ") := by decide
  have hnode : " node at " = " " ++ "node at " := by decide
  simp only [message.eq_def, hword, hnode, String.append_assoc, String.append_right_inj] at h
  have hrange : "range" ≠ k'.name := by
    cases k' <;> simp [Kind.name.eq_def]
  exact hrange (eq_of_append_mark h (by decide) k'.blank_not_mem_name rfl).1

/-- No two violations are worded alike. -/
theorem Violation.message_injective {v w : Violation} (h : v.message = w.message) : v = w := by
  cases v with
  | badSpan k s f =>
    cases w with
    | badSpan k' s' f' =>
      simp only [message.eq_def, String.append_assoc, String.append_right_inj] at h
      obtain ⟨rfl, hnode⟩ := Span.eq_of_render_append h
      rw [String.append_right_inj] at hnode
      obtain ⟨rfl, hreason⟩ := Kind.eq_of_name_append hnode rfl
      rw [SpanFault.message_injective hreason]
    | badContent k' s' f' => exact absurd h (message_badSpan_ne k k' s s' f f')
  | badContent k s f =>
    cases w with
    | badSpan k' s' f' => exact absurd h.symm (message_badSpan_ne k' k s' s f' f)
    | badContent k' s' f' =>
      simp only [message.eq_def, String.append_assoc, String.append_right_inj] at h
      obtain ⟨rfl, hspan⟩ := Kind.eq_of_name_append h rfl
      obtain ⟨rfl, hreason⟩ := Span.eq_of_render_append hspan
      rw [ContentFault.message_injective ((String.append_right_inj _).mp hreason)]

/-! ## Fields -/

/-- The field that is missing or repeated. -/
def DecodeError.field? : DecodeError → Option String
  | missingField name | duplicateField name => some name
  | unknownVariant .. | invalidType | invalidValue | invalidLength => none

theorem DecodeError.message_missingField (name : String) :
    message (.missingField name) = "missing field \x60" ++ name ++ "\x60" := by
  have hquote : "missing field \x60" = "missing field " ++ "\x60" := by decide
  simp only [message.eq_def, inAccents, hquote, String.append_assoc]

theorem DecodeError.message_duplicateField (name : String) :
    message (.duplicateField name) = "duplicate field \x60" ++ name ++ "\x60" := by
  have hquote : "duplicate field \x60" = "duplicate field " ++ "\x60" := by decide
  simp only [message.eq_def, inAccents, hquote, String.append_assoc]

/-- An error worded as one about a field is that error. -/
theorem DecodeError.eq_of_message {e e' : DecodeError} (hfield : e.field?.isSome = true)
    (h : e'.message = e.message) : e' = e := by
  have hhead : e'.message.toList.head? = e.message.toList.head? := by rw [h]
  cases e with
  | missingField name =>
    cases e' with
    | missingField name' =>
      simp only [message.eq_def, inAccents, String.append_left_inj, String.append_right_inj] at h
      rw [h]
    | _ => simp [message.eq_def] at hhead
  | duplicateField name =>
    cases e' with
    | duplicateField name' =>
      simp only [message.eq_def, inAccents, String.append_left_inj, String.append_right_inj] at h
      rw [h]
    | _ => simp [message.eq_def] at hhead
  | _ => cases hfield

end ShellGloss
