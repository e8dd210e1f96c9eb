import ShellGloss.Proofs.AttributeWords
import ShellGloss.Proofs.Outcomes
import ShellGloss.Proofs.SpelledBytes

/-!
# Texts for colors

Behind its attributes a style text names a color, by one of its names, by its channels in
hexadecimal digits or between commas, or by its place in the palette. `Color.Grammar` says
so without an order of trial, and reading accepts just that (`Color.read_eq_ok_iff`): of
the four forms no text has two.

Reading takes parts of the text between places that are counted in bytes, where a character
of more than one byte could be in the way. It never is (`Color.eq_unknown_of_read`): such a
part either stands between known ASCII characters or lies in an ASCII text of known length.
-/

namespace ShellGloss

open Text (AllBlank IsTrimmed Solid firstWord trim trimLeft)

/-- The names of a color. -/
def NamedColor.spellings : NamedColor → List String
  | black => ["black"]
  | red => ["red"]
  | green => ["green"]
  | yellow => ["yellow"]
  | blue => ["blue"]
  | magenta => ["magenta"]
  | cyan => ["cyan"]
  | white => ["white"]
  | grey => ["gray", "grey"]
  | darkGrey => ["dark gray", "dark grey", "darkgray", "darkgrey"]
  | darkRed => ["dark red", "darkred"]
  | darkGreen => ["dark green", "darkgreen"]
  | darkYellow => ["dark yellow", "darkyellow"]
  | darkBlue => ["dark blue", "darkblue"]
  | darkMagenta => ["dark magenta", "darkmagenta"]
  | darkCyan => ["dark cyan", "darkcyan"]

namespace Color

/-! ## The grammar -/

/-- Three channels as pairs of hexadecimal characters. -/
inductive HexTriple : List Char → Color → Prop where
  | rgb {a₁ a₂ b₁ b₂ c₁ c₂ : Char} {r g b : UInt8} (red : Number.HexPair a₁ a₂ r)
      (green : Number.HexPair b₁ b₂ g) (blue : Number.HexPair c₁ c₂ b) :
      HexTriple [a₁, a₂, b₁, b₂, c₁, c₂] (.rgb r g b)

/-- A channel in decimal digits, with blanks around. -/
def Channel (cs : List Char) (n : UInt8) : Prop :=
  ∃ lead body trail, AllBlank lead ∧ AllBlank trail ∧ cs = lead ++ body ++ trail ∧
    Number.Spells 10 body n

/-- Three channels between commas. -/
inductive ChannelTriple : List Char → Color → Prop where
  | rgb {x y z : List Char} {r g b : UInt8} (red : Channel x r) (green : Channel y g)
      (blue : Channel z b) : ChannelTriple (x ++ ',' :: (y ++ ',' :: z)) (.rgb r g b)

/-- A text between `rgb(` and `)`. -/
def bracketed (cs : List Char) : List Char :=
  ['r', 'g', 'b', '('] ++ (cs ++ [')'])

/-- The texts for a color. -/
inductive Grammar : List Char → Color → Prop where
  | name {c : NamedColor} {name : String} (spelling : name ∈ c.spellings) :
      Grammar name.toList (.named c)
  | hex {cs : List Char} {c : Color} (triple : HexTriple cs c) : Grammar ('#' :: cs) c
  | channels {cs : List Char} {c : Color} (triple : ChannelTriple cs c) : Grammar (bracketed cs) c
  | palette {cs : List Char} {n : UInt8} (index : Number.Spells 10 cs n) :
      Grammar cs (.palette n)

/-! ## Names -/

variable {cs : List Char}

theorem lookup_names_eq_some_iff {c : NamedColor} :
    names.lookup cs = some c ↔ ∃ name ∈ c.spellings, cs = name.toList := by
  constructor
  · intro h
    have hall : ∀ p ∈ names, ∃ name ∈ p.2.spellings, p.1 = name.toList := by decide
    obtain ⟨before, after, heq, -⟩ := List.lookup_eq_some_iff.mp h
    exact hall (cs, c) (heq ▸ List.mem_append_right before List.mem_cons_self)
  · rintro ⟨name, hname, rfl⟩
    have hall : ∀ name ∈ c.spellings, names.lookup name.toList = some c := by
      cases c <;> decide
    exact hall name hname

/-- What no name has is in no text that is looked up with success. -/
theorem lookup_names_eq_none {P : List Char → Prop} (hall : ∀ p ∈ names, ¬ P p.1) (h : P cs) :
    names.lookup cs = none := by
  cases hlookup : names.lookup cs with
  | none => rfl
  | some c =>
    obtain ⟨before, after, heq, -⟩ := List.lookup_eq_some_iff.mp hlookup
    exact absurd h (hall (cs, c) (heq ▸ List.mem_append_right before List.mem_cons_self))

/-! ## Parts and bytes -/

/-- A part can be taken where the text falls into three. -/
theorem part_append (before part after : List Char) :
    Color.part (Text.byteCount before) (Text.byteCount before + Text.byteCount part)
      (before ++ (part ++ after)) = .ok part := by
  rw [Color.part, Text.slice?_eq_some_iff.mpr ⟨before, after, rfl, rfl, rfl⟩]

/-- A part cannot be taken between places that are out of order, out of range or inside a
character. -/
theorem part_eq_badCut_iff {first stop : Nat} :
    Color.part first stop cs = .error .badCut ↔
      ¬ (first ≤ stop ∧ Text.IsBoundary first cs ∧ Text.IsBoundary stop cs) := by
  rw [← Text.exists_slice?_iff, Color.part]
  cases Text.slice? first stop cs with
  | none => simp
  | some part => simp

/-- What is read has the property, and all else is refused as unknown. -/
structure Recognizes {α : Type} (x : Except Fault α) (P : α → Prop) : Prop where
  ok_iff : ∀ a, x = .ok a ↔ P a
  unknown : ∀ e, x = .error e → e = .unknown

theorem Recognizes.congr {α : Type} {x : Except Fault α} {P Q : α → Prop} (h : Recognizes x P)
    (hiff : ∀ a, P a ↔ Q a) : Recognizes x Q where
  ok_iff := fun a => (h.ok_iff a).trans (hiff a)
  unknown := h.unknown

theorem recognizes_error {α : Type} {P : α → Prop} (h : ∀ a, ¬ P a) :
    Recognizes (.error .unknown) P where
  ok_iff := by
    intro a
    constructor
    · intro heq
      cases heq
    · intro ha
      exact absurd ha (h a)
  unknown := fun _ heq => (Except.error.inj heq).symm

theorem recognizes_byte {radix : Nat} (hradix : 0 < radix) (cs : List Char) :
    Recognizes (byte radix cs) (Number.Spells radix cs) := by
  constructor
  case ok_iff =>
    intro n
    rw [byte, ← Number.byte?_eq_some_iff hradix]
    cases Number.byte? radix cs with
    | none => simp
    | some m => simp
  case unknown =>
    intro e h
    rw [byte] at h
    split at h
    · cases h
    · exact (Except.error.inj h).symm

/-- A color of three channels that are read one after the other. -/
def ofBytes (red green blue : Except Fault UInt8) : Except Fault Color := do
  return .rgb (← red) (← green) (← blue)

theorem Recognizes.ofBytes {red green blue : Except Fault UInt8} {P Q R : UInt8 → Prop}
    (hred : Recognizes red P) (hgreen : Recognizes green Q) (hblue : Recognizes blue R) :
    Recognizes (ofBytes red green blue) fun c => ∃ r g b, P r ∧ Q g ∧ R b ∧ .rgb r g b = c := by
  constructor
  case ok_iff =>
    intro c
    simp only [Color.ofBytes, bind_eq_ok_iff, hred.ok_iff, hgreen.ok_iff, hblue.ok_iff, pure,
      Except.pure, Except.ok.injEq, exists_and_left]
  case unknown =>
    intro e h
    rcases bind_eq_error_iff.mp h with h | ⟨r, -, h⟩
    · exact hred.unknown e h
    rcases bind_eq_error_iff.mp h with h | ⟨g, -, h⟩
    · exact hgreen.unknown e h
    rcases bind_eq_error_iff.mp h with h | ⟨b, -, h⟩
    · exact hblue.unknown e h
    · cases h

/-! ## Channels in hexadecimal digits -/

theorem hexChannel_append (before after : List Char) {a b : Char}
    (hascii : ∀ c ∈ before ++ ([a, b] ++ after), Text.isAscii c = true) :
    hexChannel (before ++ ([a, b] ++ after)) before.length = byte 16 [a, b] := by
  have hbefore : Text.byteCount before = before.length :=
    Text.byteCount_of_isAscii fun c hc => hascii c (List.mem_append_left _ hc)
  have hpair : Text.byteCount [a, b] = 2 :=
    Text.byteCount_of_isAscii fun c hc =>
      hascii c (List.mem_append_right before (List.mem_append_left after hc))
  have hpart := part_append before [a, b] after
  rw [hbefore, hpair] at hpart
  rw [hexChannel, hpart]
  rfl

/-- An ASCII text of six characters is cut into three pairs. -/
theorem ofHex_of_isAscii {a₁ a₂ b₁ b₂ c₁ c₂ : Char}
    (hascii : ∀ c ∈ [a₁, a₂, b₁, b₂, c₁, c₂], Text.isAscii c = true) :
    ofHex [a₁, a₂, b₁, b₂, c₁, c₂] =
      ofBytes (byte 16 [a₁, a₂]) (byte 16 [b₁, b₂]) (byte 16 [c₁, c₂]) := by
  have hguard : (Text.byteCount [a₁, a₂, b₁, b₂, c₁, c₂] = 6 &&
      [a₁, a₂, b₁, b₂, c₁, c₂].all Text.isAscii) = true := by
    rw [Text.byteCount_of_isAscii hascii, List.all_eq_true.mpr hascii]
    rfl
  have hred : hexChannel [a₁, a₂, b₁, b₂, c₁, c₂] 0 = byte 16 [a₁, a₂] :=
    hexChannel_append [] _ hascii
  have hgreen : hexChannel [a₁, a₂, b₁, b₂, c₁, c₂] 2 = byte 16 [b₁, b₂] :=
    hexChannel_append [a₁, a₂] _ hascii
  have hblue : hexChannel [a₁, a₂, b₁, b₂, c₁, c₂] 4 = byte 16 [c₁, c₂] :=
    hexChannel_append [a₁, a₂, b₁, b₂] [] hascii
  rw [ofHex, if_pos hguard, hred, hgreen, hblue, ofBytes]

theorem ofHex_of_not {hex : List Char}
    (h : ¬ (hex.length = 6 ∧ ∀ c ∈ hex, Text.isAscii c = true)) :
    ofHex hex = .error .unknown := by
  refine if_neg fun hguard => h ?_
  rw [Bool.and_eq_true, decide_eq_true_eq, List.all_eq_true] at hguard
  exact ⟨(Text.byteCount_of_isAscii hguard.2).symm.trans hguard.1, hguard.2⟩

theorem isAscii_of_spells {n : UInt8} (h : Number.Spells 16 cs n) :
    ∀ c ∈ cs, Text.isAscii c = true :=
  h.forall (P := fun c => Text.isAscii c = true) (by decide) (by decide)

theorem HexTriple.isAscii {c : Color} (h : HexTriple cs c) :
    cs.length = 6 ∧ ∀ d ∈ cs, Text.isAscii d = true := by
  obtain ⟨hr, hg, hb⟩ := h
  have hr := isAscii_of_spells (Number.spells_pair_iff.mpr hr)
  have hg := isAscii_of_spells (Number.spells_pair_iff.mpr hg)
  have hb := isAscii_of_spells (Number.spells_pair_iff.mpr hb)
  refine ⟨rfl, ?_⟩
  simp only [List.forall_mem_cons] at hr hg hb ⊢
  exact ⟨hr.1, hr.2.1, hg.1, hg.2.1, hb⟩

theorem recognizes_ofHex (hex : List Char) : Recognizes (ofHex hex) (HexTriple hex) := by
  -- either test alone would let a part be cut inside a character or beyond the end
  by_cases hsix : hex.length = 6 ∧ ∀ c ∈ hex, Text.isAscii c = true
  · obtain ⟨hlen, hascii⟩ := hsix
    have hpair (a b : Char) : Recognizes (byte 16 [a, b]) (Number.HexPair a b) :=
      (recognizes_byte (by decide) [a, b]).congr fun n => Number.spells_pair_iff
    match hex, hlen with
    | [a₁, a₂, b₁, b₂, c₁, c₂], _ =>
      rw [ofHex_of_isAscii hascii]
      refine ((hpair a₁ a₂).ofBytes (hpair b₁ b₂) (hpair c₁ c₂)).congr fun c => ?_
      constructor
      · rintro ⟨r, g, b, hr, hg, hb, rfl⟩
        exact .rgb hr hg hb
      · rintro ⟨hr, hg, hb⟩
        exact ⟨_, _, _, hr, hg, hb, rfl⟩
  · rw [ofHex_of_not hsix]
    exact recognizes_error fun c h => hsix h.isAscii

/-! ## Channels between commas -/

theorem solid_of_spells {n : UInt8} (h : Number.Spells 10 cs n) : Solid cs :=
  h.forall (P := fun c => Text.isBlank c = false) (by decide) (by decide)

theorem channel_iff {n : UInt8} : Channel cs n ↔ Number.Spells 10 (trim cs) n := by
  constructor
  · rintro ⟨lead, body, trail, hlead, htrail, rfl, h⟩
    rwa [Text.trim_eq hlead htrail (solid_of_spells h).isTrimmed]
  · intro h
    obtain ⟨lead, trail, hlead, htrail, hcs⟩ := Text.exists_around_trim cs
    exact ⟨lead, trim cs, trail, hlead, htrail, hcs, h⟩

theorem Channel.comma_not_mem {n : UInt8} (h : Channel cs n) : ',' ∉ cs := by
  obtain ⟨lead, body, trail, hlead, htrail, rfl, hbody⟩ := h
  have hcomma : Text.isBlank ',' = false := by decide
  have hblank {cs : List Char} (hcs : AllBlank cs) : ',' ∉ cs := by
    intro hmem
    rw [hcs _ hmem] at hcomma
    cases hcomma
  have hne : ∀ c ∈ body, c ≠ ',' :=
    hbody.forall (P := fun c => c ≠ ',') (by decide) (by decide)
  simp only [List.mem_append, not_or]
  exact ⟨⟨hblank hlead, fun hmem => hne _ hmem rfl⟩, hblank htrail⟩

theorem ofChannels_of_three {x y z : List Char} (h : cs.splitOn ',' = [x, y, z]) :
    ofChannels cs = ofBytes (byte 10 (trim x)) (byte 10 (trim y)) (byte 10 (trim z)) := by
  rw [ofChannels, h, ofBytes]
  simp only [List.mapM_cons, List.mapM_nil, bind_assoc, pure_bind]

theorem ofChannels_of_not (h : ∀ x y z, cs.splitOn ',' ≠ [x, y, z]) :
    ofChannels cs = .error .unknown := by
  rw [ofChannels]
  -- all pieces are read before they are counted, so a wrong number of them can fail on a byte too
  cases hbytes : (cs.splitOn ',').mapM fun channel => byte 10 (trim channel) with
  | error e =>
    obtain ⟨x, -, hx⟩ := exists_mem_of_mapM_eq_error hbytes
    rw [(recognizes_byte (by decide) (trim x)).unknown e hx]
    rfl
  | ok bytes =>
    have hlen := (mapM_eq_ok_iff.mp hbytes).length_eq
    match bytes with
    | [r, g, b] =>
      obtain ⟨x, y, z, hpieces⟩ := List.length_eq_three.mp hlen
      exact absurd hpieces (h x y z)
    | [] | [_] | [_, _] | _ :: _ :: _ :: _ :: _ => rfl

/-- Between commas the three channels are the pieces. -/
theorem splitOn_eq_iff {x y z : List Char} (hx : ',' ∉ x) (hy : ',' ∉ y) (hz : ',' ∉ z) :
    cs.splitOn ',' = [x, y, z] ↔ cs = x ++ ',' :: (y ++ ',' :: z) := by
  have hjoin : [','].intercalate [x, y, z] = x ++ ',' :: (y ++ ',' :: z) := by
    simp [List.intercalate]
  constructor
  · intro h
    rw [← hjoin, ← h, List.intercalate_splitOn]
  · rintro rfl
    have hcommas : ∀ piece ∈ [x, y, z], ',' ∉ piece := by
      simp only [List.forall_mem_cons]
      exact ⟨hx, hy, hz, List.forall_mem_nil _⟩
    rw [← hjoin, List.splitOn_intercalate ',' hcommas (List.cons_ne_nil _ _)]

theorem recognizes_ofChannels (cs : List Char) : Recognizes (ofChannels cs) (ChannelTriple cs) := by
  by_cases hthree : ∃ x y z, cs.splitOn ',' = [x, y, z]
  · obtain ⟨x, y, z, hpieces⟩ := hthree
    have hchannel (cs : List Char) : Recognizes (byte 10 (trim cs)) (Channel cs) :=
      (recognizes_byte (by decide) (trim cs)).congr fun n => channel_iff.symm
    rw [ofChannels_of_three hpieces]
    refine ((hchannel x).ofBytes (hchannel y) (hchannel z)).congr fun c => ?_
    constructor
    · rintro ⟨r, g, b, hr, hg, hb, rfl⟩
      rw [(splitOn_eq_iff hr.comma_not_mem hg.comma_not_mem hb.comma_not_mem).mp hpieces]
      exact .rgb hr hg hb
    · rintro ⟨hr, hg, hb⟩
      rw [(splitOn_eq_iff hr.comma_not_mem hg.comma_not_mem hb.comma_not_mem).mpr rfl] at hpieces
      cases hpieces
      exact ⟨_, _, _, hr, hg, hb, rfl⟩
  · rw [ofChannels_of_not fun x y z hpieces => hthree ⟨x, y, z, hpieces⟩]
    refine recognizes_error fun c h => hthree ?_
    obtain ⟨hr, hg, hb⟩ := h
    exact ⟨_, _, _,
      (splitOn_eq_iff hr.comma_not_mem hg.comma_not_mem hb.comma_not_mem).mpr rfl⟩

/-! ## The four forms -/

/-- A number sign in front is one byte, and no name has one. -/
theorem read_hash (hex : List Char) : read ('#' :: hex) = ofHex hex := by
  have hlookup : names.lookup ('#' :: hex) = none :=
    lookup_names_eq_none (P := fun cs => cs.head? = some '#') (by decide) rfl
  have hpart := part_append ['#'] hex []
  rw [← Text.byteCount_append, List.append_nil] at hpart
  have hread : read ('#' :: hex) = Color.part 1 (Text.byteCount ('#' :: hex)) ('#' :: hex) >>=
      ofHex := by
    rw [read, hlookup]
    rfl
  rw [hread]
  exact congrArg (· >>= ofHex) hpart

theorem isBracketed_iff :
    (['r', 'g', 'b', '('].isPrefixOf cs && cs.getLast? = some ')') = true ↔
      ∃ inner, cs = bracketed inner := by
  rw [Bool.and_eq_true, List.isPrefixOf_iff_prefix, decide_eq_true_eq]
  constructor
  · rintro ⟨⟨rest, rfl⟩, hlast⟩
    rcases List.eq_nil_or_concat rest with rfl | ⟨inner, c, rfl⟩
    · -- the opening bracket is no closing one
      exact absurd hlast (by decide)
    · have hc : c = ')' := by
        rw [List.concat_eq_append, List.getLast?_append, List.getLast?_concat] at hlast
        exact Option.some.inj hlast
      exact ⟨inner, by rw [hc, List.concat_eq_append]; rfl⟩
  · rintro ⟨inner, rfl⟩
    refine ⟨List.prefix_append _ _, ?_⟩
    rw [bracketed, List.getLast?_append, List.getLast?_concat]
    rfl

/-- Four bytes in front and one behind are the brackets, and no name has these. -/
theorem read_bracketed (inner : List Char) : read (bracketed inner) = ofChannels inner := by
  have hlookup : names.lookup (bracketed inner) = none :=
    lookup_names_eq_none (P := fun cs => '(' ∈ cs) (by decide) (by simp [bracketed])
  have hpart := part_append ['r', 'g', 'b', '('] inner [')']
  have hcount : Text.byteCount (bracketed inner) - 1 =
      Text.byteCount ['r', 'g', 'b', '('] + Text.byteCount inner := by
    have hclosing : Text.byteCount [')'] = 1 := rfl
    rw [bracketed, Text.byteCount_append, Text.byteCount_append, hclosing]
    omega
  have hread : read (bracketed inner) =
      Color.part 4 (Text.byteCount (bracketed inner) - 1) (bracketed inner) >>= ofChannels := by
    rw [read, hlookup]
    have hguard := isBracketed_iff.mpr ⟨inner, rfl⟩
    dsimp only
    rw [if_neg (by simp [bracketed]), if_pos hguard]
  rw [hread, hcount]
  exact congrArg (· >>= ofChannels) hpart

/-- A text is a name, or has one of the two openings, or is read as a place in the palette. -/
theorem read_cases (cs : List Char) :
    (∃ c, names.lookup cs = some c) ∨ (∃ hex, cs = '#' :: hex) ∨
      (∃ inner, cs = bracketed inner) ∨ read cs = Color.palette <$> byte 10 cs := by
  cases hlookup : names.lookup cs with
  | some c => exact .inl ⟨c, rfl⟩
  | none =>
    by_cases hhash : ['#'].isPrefixOf cs = true
    · obtain ⟨hex, rfl⟩ := List.isPrefixOf_iff_prefix.mp hhash
      exact .inr (.inl ⟨hex, rfl⟩)
    · by_cases hbracketed : (['r', 'g', 'b', '('].isPrefixOf cs && cs.getLast? = some ')') = true
      · exact .inr (.inr (.inl (isBracketed_iff.mp hbracketed)))
      · refine .inr (.inr (.inr ?_))
        rw [read, hlookup]
        dsimp only
        rw [if_neg hhash, if_neg hbracketed]
        rfl

/-- A number is no name and has none of the openings. -/
theorem read_of_spells {n : UInt8} (h : Number.Spells 10 cs n) :
    read cs = .ok (.palette n) := by
  have hdecimal : ∀ c ∈ cs, (c == '+' || c.isDigit) = true :=
    h.forall (P := fun c => (c == '+' || c.isDigit) = true) (by decide) (by decide)
  have hlookup : names.lookup cs = none :=
    lookup_names_eq_none (P := fun cs => (cs.all fun c => c == '+' || c.isDigit) = true) (by decide)
      (List.all_eq_true.mpr hdecimal)
  -- the forms that are tried first ask for a character that no number has
  rcases read_cases cs with ⟨c, hc⟩ | ⟨hex, rfl⟩ | ⟨inner, rfl⟩ | hread
  · rw [hlookup] at hc
    cases hc
  · exact absurd (hdecimal '#' List.mem_cons_self) (by decide)
  · exact absurd (hdecimal 'r' List.mem_cons_self) (by decide)
  · rw [hread, ((recognizes_byte (by decide) cs).ok_iff n).mpr h]
    rfl

/-- Reading accepts the texts of the grammar, and gives the color that they are for. -/
theorem read_eq_ok_iff {c : Color} : read cs = .ok c ↔ Grammar cs c := by
  constructor
  · intro h
    rcases read_cases cs with ⟨name, hname⟩ | ⟨hex, rfl⟩ | ⟨inner, rfl⟩ | hread
    · rw [read, hname] at h
      obtain rfl := Except.ok.inj h
      obtain ⟨_, hspelling, rfl⟩ := lookup_names_eq_some_iff.mp hname
      exact .name hspelling
    · rw [read_hash] at h
      exact .hex (((recognizes_ofHex hex).ok_iff c).mp h)
    · rw [read_bracketed] at h
      exact .channels (((recognizes_ofChannels inner).ok_iff c).mp h)
    · rw [hread] at h
      obtain ⟨n, hn, rfl⟩ := map_eq_ok_iff.mp h
      exact .palette (((recognizes_byte (by decide) cs).ok_iff n).mp hn)
  · intro h
    cases h with
    | name spelling => rw [read, lookup_names_eq_some_iff.mpr ⟨_, spelling, rfl⟩]
    | hex triple =>
      rw [read_hash]
      exact ((recognizes_ofHex _).ok_iff c).mpr triple
    | channels triple =>
      rw [read_bracketed]
      exact ((recognizes_ofChannels _).ok_iff c).mpr triple
    | palette index => exact read_of_spells index

/-- Only a text that names no color is refused: every part that is taken can be cut off. -/
theorem eq_unknown_of_read {e : Fault} (h : read cs = .error e) : e = .unknown := by
  rcases read_cases cs with ⟨name, hname⟩ | ⟨hex, rfl⟩ | ⟨inner, rfl⟩ | hread
  · rw [read, hname] at h
    cases h
  · rw [read_hash] at h
    exact (recognizes_ofHex hex).unknown e h
  · rw [read_bracketed] at h
    exact (recognizes_ofChannels inner).unknown e h
  · rw [hread] at h
    cases hbyte : byte 10 cs with
    | error e' =>
      rw [hbyte] at h
      obtain rfl : e' = e := Except.error.inj h
      exact (recognizes_byte (by decide) cs).unknown e' hbyte
    | ok n =>
      rw [hbyte] at h
      cases h

theorem ofText?_eq_some_iff {c : Color} : ofText? cs = some c ↔ Grammar cs c := by
  rw [ofText?, ← read_eq_ok_iff]
  cases read cs <;> simp [Except.toOption]

/-! ## Every color of three channels -/

/-- A color in hexadecimal digits. -/
def hexText (r g b : UInt8) : List Char :=
  '#' :: (Number.hexPair r ++ Number.hexPair g ++ Number.hexPair b)

/-- A color in decimal digits between commas. -/
def channelText (r g b : UInt8) : List Char :=
  bracketed ((toString r.toNat).toList ++ ',' ::
    ((toString g.toNat).toList ++ ',' :: (toString b.toNat).toList))

theorem grammar_hexText (r g b : UInt8) : Grammar (hexText r g b) (.rgb r g b) :=
  .hex (.rgb (Number.hexPair_hexPair r) (Number.hexPair_hexPair g) (Number.hexPair_hexPair b))

theorem grammar_channelText (r g b : UInt8) : Grammar (channelText r g b) (.rgb r g b) := by
  have hchannel (n : UInt8) : Channel (toString n.toNat).toList n :=
    ⟨[], _, [], List.forall_mem_nil _, List.forall_mem_nil _, by simp, Number.spells_toString n⟩
  exact .channels (.rgb (hchannel r) (hchannel g) (hchannel b))

end Color

namespace Style

variable {cs : List Char}

/-- A style text that has a color and nothing else to name: without blanks at its ends, in
lower case, and with no word for an attribute in front. -/
structure IsColorText (cs : List Char) : Prop where
  trimmed : IsTrimmed cs
  lower : cs.map Char.toLower = cs
  ne_nil : cs ≠ []
  ne_default : cs ≠ "default".toList
  noAttribute : NoAttributeFirst cs

theorem IsColorText.prepared_eq (h : IsColorText cs) : prepared cs = cs := by
  have htrim := Text.trim_eq (List.forall_mem_nil _) (List.forall_mem_nil _) h.trimmed
  rw [List.nil_append, List.append_nil] at htrim
  rw [prepared, htrim, h.lower]

theorem IsColorText.read_eq (h : IsColorText cs) :
    read (String.ofList cs) = match Color.ofText? cs with
      | some c => .ok ⟨.none, some c⟩
      | none => .error ⟨String.ofList cs⟩ := by
  have hcolored : isColorless cs = false := by
    rw [isColorless, Bool.or_eq_false_iff, List.isEmpty_eq_false_iff, beq_eq_false_iff_ne]
    exact ⟨h.ne_nil, h.ne_default⟩
  rw [read_noAttributeFirst h.noAttribute, h.prepared_eq, readColor, hcolored]
  cases Color.ofText? cs <;> rfl

theorem IsColorText.read_eq_ok_iff (h : IsColorText cs) {s : Style} :
    read (String.ofList cs) = .ok s ↔ ∃ c, Color.Grammar cs c ∧ s = ⟨.none, some c⟩ := by
  rw [h.read_eq]
  constructor
  · intro hs
    cases hcolor : Color.ofText? cs with
    | none =>
      rw [hcolor] at hs
      cases hs
    | some c =>
      rw [hcolor] at hs
      exact ⟨c, Color.ofText?_eq_some_iff.mp hcolor, (Except.ok.inj hs).symm⟩
  · rintro ⟨c, hc, rfl⟩
    rw [Color.ofText?_eq_some_iff.mpr hc]

theorem IsColorText.message_of_read (h : IsColorText cs) {e : UnknownColor}
    (he : read (String.ofList cs) = .error e) :
    e.message = "unable to parse color: " ++ String.ofList cs := by
  rw [h.read_eq] at he
  split at he
  · cases he
  · obtain rfl := Except.error.inj he
    rfl

/-- The character is no blank and no capital letter, so preparing a text leaves it. -/
def isSteady (c : Char) : Bool :=
  !Text.isBlank c && c.toLower == c

/-- A text of one word in lower case is a color's if it has a sign that no word has. -/
theorem isColorText_of_sign (hsteady : cs.all isSteady = true) (hsign : '#' ∈ cs ∨ '(' ∈ cs) :
    IsColorText cs := by
  have hchar : ∀ c ∈ cs, Text.isBlank c = false ∧ c.toLower = c := by
    simpa [isSteady] using hsteady
  have hsolid : Solid cs := fun c hc => (hchar c hc).1
  have hlower : cs.map Char.toLower = cs :=
    (List.map_congr_left fun c hc => (hchar c hc).2).trans (List.map_id cs)
  constructor
  case trimmed => exact hsolid.isTrimmed
  case lower => exact hlower
  case ne_nil =>
    rintro rfl
    simp at hsign
  case ne_default =>
    rintro rfl
    exact absurd hsign (by decide)
  case noAttribute =>
    intro a hmem
    have hfirst : firstWord (trimLeft cs) = cs := by
      have hend : Text.StartsBlank [] := fun c hc => by cases hc
      have happend := Text.firstWord_append hsolid hend
      rw [List.append_nil] at happend
      rw [Text.trimLeft_eq_self hsolid.startsSolid, happend]
    rw [hfirst, hlower] at hmem
    have hall : ∀ p ∈ Attribute.words, ¬ ('#' ∈ p.1 ∨ '(' ∈ p.1) := by decide
    exact hall _ hmem hsign

theorem isColorText_hexText (r g b : UInt8) : IsColorText (Color.hexText r g b) := by
  have hdigit : ∀ x < 16, isSteady (Nat.digitChar x) = true := by decide
  have hpair (n : UInt8) : (Number.hexPair n).all isSteady = true := by
    have hhigh : n.toNat / 16 < 16 := Nat.div_lt_of_lt_mul n.toNat_lt_size
    have hlow : n.toNat % 16 < 16 := Nat.mod_lt _ (by decide)
    rw [Number.hexPair, List.all_cons, List.all_cons, hdigit _ hhigh, hdigit _ hlow]
    rfl
  have hsign : isSteady '#' = true := by decide
  refine isColorText_of_sign ?_ (.inl List.mem_cons_self)
  rw [Color.hexText, List.all_cons, List.all_append, List.all_append, hsign, hpair, hpair, hpair]
  rfl

theorem isColorText_channelText (r g b : UInt8) : IsColorText (Color.channelText r g b) := by
  have hnumber (n : UInt8) : (toString n.toNat).toList.all isSteady = true :=
    List.all_eq_true.mpr
      ((Number.spells_toString n).forall (P := fun c => isSteady c = true) (by decide) (by decide))
  have hopening : ['r', 'g', 'b', '('].all isSteady = true := by decide
  have hcomma : isSteady ',' = true := by decide
  have hclosing : [')'].all isSteady = true := by decide
  refine isColorText_of_sign ?_ (.inr (List.mem_append_left _ (by decide)))
  simp only [Color.channelText, Color.bracketed, List.all_append, List.all_cons, hopening, hcomma,
    hnumber, hclosing, Bool.and_true]

end Style

/-- Texts for colors are read by their grammar, and no number wraps around. A style text that
names no attribute and is not without a color is accepted exactly if it is in the grammar,
for the color that it has there; otherwise the error quotes it. Whatever the text, no part of
it is taken out of its range or from inside a character, which would be a fault of its own.
Every color of three channels is read from its hexadecimal digits as it is from its decimal
ones between commas. -/
theorem color_read_by_grammar :
    (∀ cs : List Char, Style.IsColorText cs →
      (∀ s, Style.read (String.ofList cs) = .ok s ↔
        ∃ c, Color.Grammar cs c ∧ s = ⟨.none, some c⟩) ∧
      ∀ e, Style.read (String.ofList cs) = .error e →
        e.message = "unable to parse color: " ++ String.ofList cs) ∧
    (∀ cs : List Char, Color.read cs ≠ .error .badCut ∧
      ∀ first stop, Color.part first stop cs = .error .badCut ↔
        ¬ (first ≤ stop ∧ Text.IsBoundary first cs ∧ Text.IsBoundary stop cs)) ∧
    ∀ r g b : UInt8,
      Style.read (String.ofList (Color.hexText r g b)) = .ok ⟨.none, some (.rgb r g b)⟩ ∧
      Style.read (String.ofList (Color.channelText r g b)) = .ok ⟨.none, some (.rgb r g b)⟩ := by
  refine ⟨fun cs hcs => ⟨fun s => hcs.read_eq_ok_iff, fun e => hcs.message_of_read⟩,
    fun cs => ⟨fun h => ?_, fun first stop => Color.part_eq_badCut_iff⟩, fun r g b => ⟨?_, ?_⟩⟩
  · cases Color.eq_unknown_of_read h
  · exact (Style.isColorText_hexText r g b).read_eq_ok_iff.mpr
      ⟨_, Color.grammar_hexText r g b, rfl⟩
  · exact (Style.isColorText_channelText r g b).read_eq_ok_iff.mpr
      ⟨_, Color.grammar_channelText r g b, rfl⟩

/-- Channels with a plus sign, leading zeros and blanks. -/
def spacedChannels : List Char :=
  "rgb( +007,\u3000255,10\t)".toList

/-- As many bytes as six digits, but in three characters. -/
def accentedHex : List Char :=
  "#ééé".toList

theorem color_read_by_grammar_spacedChannels :
    Style.IsColorText spacedChannels ∧ Style.IsColorText accentedHex ∧
      Color.Grammar spacedChannels (.rgb 7 255 10) ∧
      Style.read (String.ofList spacedChannels) = .ok ⟨.none, some (.rgb 7 255 10)⟩ ∧
      ∃ e, Style.read (String.ofList accentedHex) = .error e ∧
        e.message = "unable to parse color: #ééé" := by
  obtain ⟨hgrammar, -, -⟩ := color_read_by_grammar
  have hspaced : Style.IsColorText spacedChannels := by
    constructor
    case trimmed => decide
    case lower => decide
    case ne_nil => decide
    case ne_default => decide
    case noAttribute =>
      intro a
      cases a <;> decide
  have haccented : Style.IsColorText accentedHex :=
    Style.isColorText_of_sign (by decide) (by decide)
  have hcolor : Color.Grammar spacedChannels (.rgb 7 255 10) := Color.read_eq_ok_iff.mp rfl
  have hnone : Color.ofText? accentedHex = none := by decide
  have herror : Style.read (String.ofList accentedHex) = .error ⟨String.ofList accentedHex⟩ := by
    rw [haccented.read_eq, hnone]
  refine ⟨hspaced, haccented, hcolor, ?_, _, herror, (hgrammar _ haccented).2 _ herror⟩
  exact ((hgrammar _ hspaced).1 _).mpr ⟨_, hcolor, rfl⟩

end ShellGloss
