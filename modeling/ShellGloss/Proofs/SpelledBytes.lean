import Mathlib.Data.List.Forall2
import Mathlib.Data.Nat.Digits.Defs
import ShellGloss.Number.Byte

/-!
# Spelled bytes

Which texts spell a byte in the digits of a radix, said by the places of the digits: a plus
sign or none, and one or more digits whose value as a number is that of the byte. Reading
takes the digits one by one and gives up as soon as the value is no byte. The value never
falls again, so nothing is given up that would have been a byte in the end
(`foldlM_appendDigit?_eq_some_iff`).
-/

namespace ShellGloss.Number

/-! ## Digits -/

/-- The character is the digit of that value in the radix, in lower or upper case. -/
structure IsDigit (radix : Nat) (c : Char) (d : Nat) : Prop where
  lt_radix : d < radix
  lt_sixteen : d < 16
  eq_digit : c = Nat.digitChar d ∨ c = (Nat.digitChar d).toUpper

instance (radix : Nat) (c : Char) (d : Nat) : Decidable (IsDigit radix c d) :=
  decidable_of_iff (d < radix ∧ d < 16 ∧ (c = Nat.digitChar d ∨ c = (Nat.digitChar d).toUpper))
    ⟨fun ⟨h, h', h''⟩ => ⟨h, h', h''⟩, fun h => ⟨h.lt_radix, h.lt_sixteen, h.eq_digit⟩⟩

theorem IsDigit.hex {radix d : Nat} {c : Char} (h : IsDigit radix c d) : IsDigit 16 c d :=
  ⟨h.lt_sixteen, h.lt_sixteen, h.eq_digit⟩

/-- What holds of the characters for all values below the radix holds of every digit. -/
theorem IsDigit.forall {radix d : Nat} {c : Char} {P : Char → Nat → Prop}
    (hall : ∀ d < radix, P (Nat.digitChar d) d ∧ P (Nat.digitChar d).toUpper d)
    (h : IsDigit radix c d) : P c d := by
  obtain ⟨hlower, hupper⟩ := hall d h.lt_radix
  rcases h.eq_digit with rfl | rfl
  · exact hlower
  · exact hupper

theorem toNat_lt_of_hexDigit? {c : Char} {d : Nat} (h : hexDigit? c = some d) :
    c.toNat < 128 := by
  rw [hexDigit?] at h
  have hle (x : Char) (hx : c ≤ x) (hascii : x.toNat < 128) : c.toNat < 128 :=
    Nat.lt_of_le_of_lt (UInt32.le_iff_toNat_le.mp hx) hascii
  split at h
  · rename_i hdigit
    simp only [Char.isDigit, Bool.and_eq_true, decide_eq_true_eq] at hdigit
    exact hle '9' hdigit.2 (by decide)
  · split at h
    · rename_i hlower
      simp only [Bool.and_eq_true, decide_eq_true_eq] at hlower
      exact hle 'f' hlower.2 (by decide)
    · split at h
      · rename_i hupper
        simp only [Bool.and_eq_true, decide_eq_true_eq] at hupper
        exact hle 'F' hupper.2 (by decide)
      · cases h

theorem hexDigit?_eq_some_iff {c : Char} {d : Nat} :
    hexDigit? c = some d ↔ IsDigit 16 c d := by
  constructor
  · intro h
    have hall : ∀ n < 128, ∀ d ∈ hexDigit? (Char.ofNat n), IsDigit 16 (Char.ofNat n) d := by
      decide +kernel
    have hc := hall c.toNat (toNat_lt_of_hexDigit? h)
    rw [Char.ofNat_toNat] at hc
    exact hc d h
  · exact IsDigit.forall (P := fun c d => hexDigit? c = some d) (by decide +kernel)

theorem digit?_eq_some_iff {radix d : Nat} {c : Char} :
    digit? radix c = some d ↔ IsDigit radix c d := by
  rw [digit?, Option.filter_eq_some_iff, hexDigit?_eq_some_iff, decide_eq_true_eq]
  constructor
  · rintro ⟨h, hlt⟩
    exact ⟨hlt, h.lt_sixteen, h.eq_digit⟩
  · intro h
    exact ⟨h.hex, h.lt_radix⟩

theorem IsDigit.ne_plus {radix d : Nat} {c : Char} (h : IsDigit radix c d) : c ≠ '+' :=
  h.hex.forall (P := fun c _ => c ≠ '+') (by decide)

/-! ## Bytes -/

/-- One more digit makes a byte of a byte, or there is no byte of that value. -/
theorem appendDigit?_eq_some_iff {radix : Nat} {n m : UInt8} {c : Char} :
    appendDigit? radix n c = some m ↔
      ∃ d, IsDigit radix c d ∧ m.toNat = n.toNat * radix + d := by
  rw [appendDigit?, Option.bind_eq_some_iff]
  constructor
  · rintro ⟨d, hd, h⟩
    refine ⟨d, digit?_eq_some_iff.mp hd, ?_⟩
    split at h
    · rename_i hlt
      obtain rfl := Option.some.inj h
      exact UInt8.toNat_ofNat_of_lt hlt
    · cases h
  · rintro ⟨d, hd, h⟩
    refine ⟨d, digit?_eq_some_iff.mpr hd, ?_⟩
    rw [← h, if_pos m.toNat_lt_size, UInt8.ofNat_toNat]

/-- Any number of digits more. -/
theorem foldlM_appendDigit?_eq_some_iff {radix : Nat} (hradix : 0 < radix) {digits : List Char}
    {n m : UInt8} :
    digits.foldlM (appendDigit? radix) n = some m ↔ ∃ values,
      List.Forall₂ (IsDigit radix) digits values ∧
        m.toNat = n.toNat * radix ^ digits.length + Nat.ofDigits radix values.reverse := by
  induction digits generalizing n with
  | nil => simp [UInt8.toNat_inj, eq_comm]
  | cons c digits ih =>
    -- the value with the first digit, and what the others make of it
    have hvalue (d : Nat) (values : List Nat) (hlen : values.length = digits.length) :
        n.toNat * radix ^ (c :: digits).length + Nat.ofDigits radix (d :: values).reverse =
          (n.toNat * radix + d) * radix ^ digits.length + Nat.ofDigits radix values.reverse := by
      rw [List.reverse_cons, Nat.ofDigits_append, Nat.ofDigits_singleton, List.length_reverse, hlen,
        List.length_cons, Nat.pow_succ]
      ring
    rw [List.foldlM_cons]
    refine Option.bind_eq_some_iff.trans ?_
    constructor
    · rintro ⟨k, hk, h⟩
      obtain ⟨d, hd, hkd⟩ := appendDigit?_eq_some_iff.mp hk
      obtain ⟨values, hvalues, hm⟩ := ih.mp h
      refine ⟨d :: values, .cons hd hvalues, ?_⟩
      rw [hm, hkd, hvalue d values hvalues.length_eq.symm]
    · rintro ⟨_, hall, hm⟩
      obtain ⟨d, values, hd, hvalues, rfl⟩ := List.forall₂_cons_left_iff.mp hall
      rw [hvalue d values hvalues.length_eq.symm] at hm
      have hle : n.toNat * radix + d ≤ m.toNat :=
        calc n.toNat * radix + d
            ≤ (n.toNat * radix + d) * radix ^ digits.length :=
              Nat.le_mul_of_pos_right _ (Nat.pow_pos hradix)
          _ ≤ m.toNat := by omega
      have hbyte : (UInt8.ofNat (n.toNat * radix + d)).toNat = n.toNat * radix + d :=
        UInt8.toNat_ofNat_of_lt (Nat.lt_of_le_of_lt hle m.toNat_lt_size)
      refine ⟨UInt8.ofNat (n.toNat * radix + d), appendDigit?_eq_some_iff.mpr ⟨d, hd, hbyte⟩, ?_⟩
      exact ih.mpr ⟨values, hvalues, by rw [hbyte]; exact hm⟩

/-- One or more digits, whose value is that of the byte. -/
def DigitsSpell (radix : Nat) (digits : List Char) (n : UInt8) : Prop :=
  digits ≠ [] ∧ ∃ values, List.Forall₂ (IsDigit radix) digits values ∧
    n.toNat = Nat.ofDigits radix values.reverse

/-- Digits that spell the byte, perhaps with a plus sign in front. -/
def Spells (radix : Nat) (cs : List Char) (n : UInt8) : Prop :=
  ∃ digits, (cs = digits ∨ cs = '+' :: digits) ∧ DigitsSpell radix digits n

theorem DigitsSpell.dropPlus_eq {radix : Nat} {digits : List Char} {n : UInt8}
    (h : DigitsSpell radix digits n) : dropPlus digits = digits := by
  obtain ⟨hne, values, hvalues, -⟩ := h
  cases hvalues with
  | nil => exact absurd rfl hne
  | @cons c d digits values hd hvalues =>
    rw [dropPlus]
    rintro cs h
    exact hd.ne_plus (List.cons.inj h).1

theorem eq_or_eq_cons_dropPlus (cs : List Char) : cs = dropPlus cs ∨ cs = '+' :: dropPlus cs := by
  rw [dropPlus.eq_def]
  split
  · exact .inr rfl
  · exact .inl rfl

/-- A byte is read from just the texts that spell it. -/
theorem byte?_eq_some_iff {radix : Nat} (hradix : 0 < radix) {cs : List Char} {n : UInt8} :
    byte? radix cs = some n ↔ Spells radix cs n := by
  have hdigits (digits : List Char) : (if digits.isEmpty then none
      else digits.foldlM (appendDigit? radix) 0) = some n ↔ DigitsSpell radix digits n := by
    cases digits with
    | nil => simp [DigitsSpell]
    | cons c digits =>
      refine (foldlM_appendDigit?_eq_some_iff hradix).trans ?_
      simp [DigitsSpell]
  rw [byte?, hdigits]
  constructor
  · intro h
    exact ⟨dropPlus cs, eq_or_eq_cons_dropPlus cs, h⟩
  · rintro ⟨digits, rfl | rfl, h⟩
    · rwa [h.dropPlus_eq]
    · exact h

/-- What holds of a plus sign and of every digit holds of every character of a spelled byte. -/
theorem Spells.forall {radix : Nat} {cs : List Char} {n : UInt8} {P : Char → Prop}
    (hplus : P '+') (hall : ∀ d < radix, P (Nat.digitChar d) ∧ P (Nat.digitChar d).toUpper)
    (h : Spells radix cs n) : ∀ c ∈ cs, P c := by
  obtain ⟨digits, hcs, -, values, hvalues, -⟩ := h
  have hdigits : ∀ c ∈ digits, P c := by
    intro c hc
    obtain ⟨i, hi, rfl⟩ := List.getElem_of_mem hc
    exact IsDigit.forall (P := fun c _ => P c) hall (hvalues.get hi (hvalues.length_eq ▸ hi))
  rcases hcs with rfl | rfl
  · exact hdigits
  · exact List.forall_mem_cons.mpr ⟨hplus, hdigits⟩

/-! ## Two characters -/

/-- Two hexadecimal digits of the value of the byte, or a plus sign and one. -/
inductive HexPair : Char → Char → UInt8 → Prop where
  | digits {a b : Char} {x y : Nat} {n : UInt8} (high : IsDigit 16 a x) (low : IsDigit 16 b y)
      (value : n.toNat = 16 * x + y) : HexPair a b n
  | signed {b : Char} {y : Nat} {n : UInt8} (low : IsDigit 16 b y) (value : n.toNat = y) :
      HexPair '+' b n

theorem spells_pair_iff {a b : Char} {n : UInt8} : Spells 16 [a, b] n ↔ HexPair a b n := by
  constructor
  · rintro ⟨digits, hcs | hcs, -, values, hvalues, hn⟩
    · subst hcs
      obtain ⟨x, rest, high, hrest, rfl⟩ := List.forall₂_cons_left_iff.mp hvalues
      obtain ⟨y, rest, low, hnil, rfl⟩ := List.forall₂_cons_left_iff.mp hrest
      obtain rfl := List.forall₂_nil_left_iff.mp hnil
      refine .digits high low ?_
      rw [hn]
      simp [Nat.ofDigits_cons, Nat.add_comm]
    · obtain ⟨rfl, rfl⟩ := List.cons.inj hcs
      obtain ⟨y, rest, low, hnil, rfl⟩ := List.forall₂_cons_left_iff.mp hvalues
      obtain rfl := List.forall₂_nil_left_iff.mp hnil
      exact .signed low (by simpa using hn)
  · rintro (⟨high, low, hn⟩ | ⟨low, hn⟩)
    · refine ⟨_, .inl rfl, List.cons_ne_nil _ _, _, .cons high (.cons low .nil), ?_⟩
      rw [hn]
      simp [Nat.ofDigits_cons, Nat.add_comm]
    · exact ⟨_, .inr rfl, List.cons_ne_nil _ _, _, .cons low .nil, by simpa using hn⟩

/-- Every byte in two hexadecimal digits. -/
def hexPair (n : UInt8) : List Char :=
  [Nat.digitChar (n.toNat / 16), Nat.digitChar (n.toNat % 16)]

theorem hexPair_hexPair (n : UInt8) :
    HexPair (Nat.digitChar (n.toNat / 16)) (Nat.digitChar (n.toNat % 16)) n := by
  have hhigh : n.toNat / 16 < 16 := Nat.div_lt_of_lt_mul n.toNat_lt_size
  have hlow : n.toNat % 16 < 16 := Nat.mod_lt _ (by decide)
  exact .digits ⟨hhigh, hhigh, .inl rfl⟩ ⟨hlow, hlow, .inl rfl⟩ (Nat.div_add_mod _ _).symm

theorem spells_toString (n : UInt8) : Spells 10 (toString n.toNat).toList n := by
  have hall : ∀ k < 256, byte? 10 (toString k).toList = some (UInt8.ofNat k) := by decide +kernel
  have hn := hall n.toNat n.toNat_lt_size
  rw [UInt8.ofNat_toNat] at hn
  exact (byte?_eq_some_iff (by decide)).mp hn

end ShellGloss.Number
