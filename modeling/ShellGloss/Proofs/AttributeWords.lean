import ShellGloss.Proofs.Outcomes
import ShellGloss.Proofs.Words
import ShellGloss.Style.Read

/-!
# Attributes in front of a color

A style text is words for attributes and then a text for a color. The words add up to a set:
their order, how often each is there, their case and the blanks between them make no
difference, and the color is read as if they were not there.

The loop that takes the words off finds a word behind any blanks but cuts off as many bytes
as the word has from the start of the text. That is the word itself because the loop never
looks at a text that starts with a blank (`Visits.startsSolid`).
-/

namespace ShellGloss

open Text (AllBlank StartsBlank StartsSolid Solid trim trimLeft firstWord byteCount dropBytes)

/-! ## Sets of attributes -/

namespace Attributes

theorem has_foldl_insert (as : List Attribute) (s : Attributes) (a : Attribute) :
    (as.foldl insert s).has a = true ↔ s.has a = true ∨ a ∈ as := by
  induction as generalizing s with
  | nil => simp
  | cons b as ih =>
    rw [List.foldl_cons, ih, has_insert, Bool.or_eq_true, decide_eq_true_eq, List.mem_cons,
      or_assoc]
    exact or_congr_right (or_congr_left eq_comm)

theorem has_ofList {as : List Attribute} {a : Attribute} :
    (ofList as).has a = true ↔ a ∈ as := by
  simp [ofList, has_foldl_insert]

/-- A set is known by its members. -/
theorem ext_has {s t : Attributes} (h : ∀ a, s.has a = true ↔ t.has a = true) : s = t := by
  have hfield (a : Attribute) : s.has a = t.has a := Bool.eq_iff_iff.mpr (h a)
  obtain ⟨_, _, _, _, _⟩ := s
  obtain ⟨_, _, _, _, _⟩ := t
  rw [Attributes.mk.injEq]
  exact ⟨hfield .bold, hfield .dim, hfield .italic, hfield .underlined, hfield .reverse⟩

end Attributes

namespace Attribute

theorem ofWord?_of_mem {word : List Char} {a : Attribute} (h : (word, a) ∈ words) :
    ofWord? word = some a := by
  have hall : ∀ p ∈ words, ofWord? p.1 = some p.2 := by decide
  exact hall _ h

theorem mem_words_of_ofWord? {word : List Char} {a : Attribute} (h : ofWord? word = some a) :
    (word, a) ∈ words := by
  obtain ⟨before, after, heq, -⟩ := List.lookup_eq_some_iff.mp h
  rw [heq]
  exact List.mem_append_right before List.mem_cons_self

theorem solid_of_mem_words {word : List Char} {a : Attribute} (h : (word, a) ∈ words) :
    Solid word := by
  have hall : ∀ p ∈ words, Solid p.1 := by decide
  exact hall _ h

theorem ne_nil_of_mem_words {word : List Char} {a : Attribute} (h : (word, a) ∈ words) :
    word ≠ [] :=
  ne_nil_of_ofWord? (ofWord?_of_mem h)

end Attribute

/-! ## The loop -/

namespace Style

variable {cs start word rest : List Char} {a : Attribute} {size : Nat}

theorem takeAttributes_of_none (h : leadingAttribute? cs = none) :
    takeAttributes cs = ([], cs) := by
  rw [takeAttributes]
  split
  · rfl
  · rename_i h'
    rw [h] at h'
    cases h'

theorem takeAttributes_of_some (h : leadingAttribute? cs = some (a, size)) :
    takeAttributes cs = (a :: (takeAttributes (trimLeft (dropBytes size cs))).1,
      (takeAttributes (trimLeft (dropBytes size cs))).2) := by
  rw [takeAttributes]
  split
  · rename_i h'
    rw [h] at h'
    cases h'
  · rename_i a' size' h'
    rw [h] at h'
    obtain ⟨rfl, rfl⟩ := Prod.mk.inj (Option.some.inj h')
    rfl

theorem leadingAttribute?_eq_some_iff :
    leadingAttribute? cs = some (a, size) ↔
      (firstWord (trimLeft cs), a) ∈ Attribute.words ∧
        byteCount (firstWord (trimLeft cs)) = size := by
  rw [leadingAttribute?, Option.map_eq_some_iff]
  constructor
  · rintro ⟨b, hb, heq⟩
    obtain ⟨rfl, hsize⟩ := Prod.mk.inj heq
    exact ⟨Attribute.mem_words_of_ofWord? hb, hsize⟩
  · rintro ⟨hmem, hsize⟩
    exact ⟨a, Attribute.ofWord?_of_mem hmem, by rw [hsize]⟩

theorem leadingAttribute?_eq_none_iff :
    leadingAttribute? cs = none ↔ ∀ a, (firstWord (trimLeft cs), a) ∉ Attribute.words := by
  rw [leadingAttribute?, Option.map_eq_none_iff]
  constructor
  · intro h a hmem
    rw [Attribute.ofWord?_of_mem hmem] at h
    cases h
  · intro h
    cases hword : Attribute.ofWord? (firstWord (trimLeft cs)) with
    | none => rfl
    | some a => exact absurd (Attribute.mem_words_of_ofWord? hword) (h a)

/-- The texts that the loop looks at. -/
inductive Visits (start : List Char) : List Char → Prop where
  | start : Visits start start
  | turn {cs : List Char} {a : Attribute} {size : Nat} (visited : Visits start cs)
      (leading : leadingAttribute? cs = some (a, size)) :
      Visits start (trimLeft (dropBytes size cs))

/-- The loop never looks at a text that starts with a blank. -/
theorem Visits.startsSolid (hstart : StartsSolid start) (h : Visits start cs) :
    StartsSolid cs := by
  cases h with
  | start => exact hstart
  | turn _ _ => exact Text.startsSolid_trimLeft _

/-- A turn cuts a text exactly behind its first word, and makes it shorter. -/
structure CutsFirstWord (cs : List Char) (size : Nat) : Prop where
  boundary : Text.IsBoundary size cs
  word_append : firstWord (trimLeft cs) ++ dropBytes size cs = cs
  ended : StartsBlank (dropBytes size cs)
  shorter : (trimLeft (dropBytes size cs)).length < cs.length

theorem cutsFirstWord_of_leading (hsolid : StartsSolid cs)
    (h : leadingAttribute? cs = some (a, size)) : CutsFirstWord cs size := by
  obtain ⟨-, hsize⟩ := leadingAttribute?_eq_some_iff.mp h
  obtain ⟨rest, -, hrest, heq⟩ := Text.exists_firstWord_append cs
  rw [Text.trimLeft_eq_self hsolid] at hsize
  have hcut : dropBytes size cs = rest := by
    calc dropBytes size cs
        = dropBytes (byteCount (firstWord cs)) (firstWord cs ++ rest) := by rw [hsize, ← heq]
      _ = rest := Text.dropBytes_append _ _
  constructor
  case boundary => exact ⟨firstWord cs, rest, heq, hsize⟩
  case word_append => rw [hcut, Text.trimLeft_eq_self hsolid, ← heq]
  case ended => rw [hcut]; exact hrest
  case shorter => exact length_lt_of_leadingAttribute? h

/-- The loop ends, at a text that it looks at and that starts with no word for an attribute. -/
theorem visits_takeAttributes (h : Visits start cs) :
    Visits start (takeAttributes cs).2 ∧ leadingAttribute? (takeAttributes cs).2 = none := by
  induction hn : cs.length using Nat.strongRecOn generalizing cs with
  | ind n ih =>
    cases hleading : leadingAttribute? cs with
    | none =>
      rw [takeAttributes_of_none hleading]
      exact ⟨h, hleading⟩
    | some found =>
      obtain ⟨a, size⟩ := found
      rw [takeAttributes_of_some hleading]
      have hlt := length_lt_of_leadingAttribute? hleading
      exact ih _ (hn ▸ hlt) (h.turn hleading) rfl

/-- A word for an attribute is taken off, with the blanks behind it. -/
theorem takeAttributes_append (hword : (word, a) ∈ Attribute.words) (hrest : StartsBlank rest) :
    takeAttributes (word ++ rest) =
      (a :: (takeAttributes (trimLeft rest)).1, (takeAttributes (trimLeft rest)).2) := by
  have hsolid := Attribute.solid_of_mem_words hword
  have hstart : StartsSolid (word ++ rest) :=
    hsolid.startsSolid.append (Attribute.ne_nil_of_mem_words hword) rest
  have hfirst : firstWord (trimLeft (word ++ rest)) = word := by
    rw [Text.trimLeft_eq_self hstart, Text.firstWord_append hsolid hrest]
  have hleading : leadingAttribute? (word ++ rest) = some (a, byteCount word) := by
    rw [leadingAttribute?_eq_some_iff, hfirst]
    exact ⟨hword, rfl⟩
  rw [takeAttributes_of_some hleading, Text.dropBytes_append]

/-! ## Spelled attributes -/

/-- A word for an attribute as a text may spell it, in letters of either case, and the
blanks behind it. -/
structure Spelling where
  meaning : Attribute
  word : List Char
  gap : List Char
  named : (word.map Char.toLower, meaning) ∈ Attribute.words
  gap_blank : AllBlank gap
  gap_ne_nil : gap ≠ []

/-- The word and the blanks. -/
def Spelling.text (w : Spelling) : List Char :=
  w.word ++ w.gap

/-- The text is blank, or its first word stands for no attribute in letters of any case. -/
def NoAttributeFirst (cs : List Char) : Prop :=
  ∀ a, ((firstWord (trimLeft cs)).map Char.toLower, a) ∉ Attribute.words

theorem noAttributeFirst_of_allBlank (h : AllBlank cs) : NoAttributeFirst cs := by
  intro a hmem
  rw [Text.trimLeft_eq_nil h] at hmem
  exact Attribute.ne_nil_of_mem_words hmem rfl

theorem Spelling.solid_word (w : Spelling) : Solid w.word := by
  intro c hc
  rw [← Text.isBlank_toLower]
  exact Attribute.solid_of_mem_words w.named _ (List.mem_map_of_mem hc)

theorem Spelling.word_ne_nil (w : Spelling) : w.word ≠ [] := by
  intro h
  refine Attribute.ne_nil_of_mem_words w.named ?_
  rw [h]
  rfl

/-- What the loop is given: the text without the blanks at its ends, in lower case. -/
def prepared (cs : List Char) : List Char :=
  (trim cs).map Char.toLower

theorem startsSolid_prepared (cs : List Char) : StartsSolid (prepared cs) := by
  intro c hc
  rw [prepared, List.head?_map, Option.mem_def, Option.map_eq_some_iff] at hc
  obtain ⟨d, hd, rfl⟩ := hc
  rw [Text.isBlank_toLower]
  exact (Text.isTrimmed_trim cs).first d hd

theorem leadingAttribute?_prepared (h : NoAttributeFirst cs) :
    leadingAttribute? (prepared cs) = none := by
  rw [leadingAttribute?_eq_none_iff, Text.trimLeft_eq_self (startsSolid_prepared cs), prepared,
    Text.firstWord_map_toLower, Text.firstWord_trim]
  exact h

/-- The loop takes all spelled words off, and what it leaves is the text behind them. -/
theorem takeAttributes_spelled (h : NoAttributeFirst cs) (ws : List Spelling) :
    takeAttributes (prepared (ws.flatMap Spelling.text ++ cs)) =
      (ws.map Spelling.meaning, prepared cs) := by
  induction ws with
  | nil => exact takeAttributes_of_none (leadingAttribute?_prepared h)
  | cons w ws ih =>
    have htext : (w :: ws).flatMap Spelling.text ++ cs =
        w.word ++ (w.gap ++ (ws.flatMap Spelling.text ++ cs)) := by
      rw [List.flatMap_cons, Spelling.text, List.append_assoc, List.append_assoc]
    have hgap : StartsBlank (w.gap ++ (ws.flatMap Spelling.text ++ cs)) :=
      w.gap_blank.startsBlank.append w.gap_ne_nil _
    obtain ⟨ds, htrim, hds, hrest⟩ := Text.exists_trim_append w.solid_word w.word_ne_nil hgap
    have hskip : trim (w.gap ++ (ws.flatMap Spelling.text ++ cs)) =
        trim (ws.flatMap Spelling.text ++ cs) := by
      rw [trim, Text.trimLeft_append w.gap_blank, ← trim]
    rw [htext, prepared, htrim, List.map_append, takeAttributes_append w.named hds.map_toLower,
      Text.trimLeft_map_toLower, hrest, hskip, ← prepared, ih, List.map_cons]

/-! ## Styles -/

/-- The color that a text describes behind the attributes, if any. -/
def readColor (cs : List Char) : Except UnknownColor (Option Color) :=
  if isColorless cs then .ok none
  else
    match Color.ofText? cs with
    | some c => .ok (some c)
    | none => .error ⟨String.ofList cs⟩

theorem read_eq (text : String) :
    read text =
      (readColor (takeAttributes (prepared text.toList)).2).map fun color =>
        ⟨.ofList (takeAttributes (prepared text.toList)).1, color⟩ := by
  rw [read, ← prepared]
  generalize takeAttributes (prepared text.toList) = taken
  obtain ⟨as, rest⟩ := taken
  by_cases hempty : isColorless rest = true
  · simp [readColor, hempty, Except.map]
  · cases hcolor : Color.ofText? rest <;> simp [readColor, hempty, hcolor, Except.map]

theorem message_of_readColor_eq_error {e : UnknownColor} (h : readColor cs = .error e) :
    e.message = "unable to parse color: " ++ String.ofList cs := by
  rw [readColor] at h
  split at h
  · cases h
  · cases hcolor : Color.ofText? cs with
    | none =>
      rw [hcolor] at h
      cases h
      rfl
    | some c =>
      rw [hcolor] at h
      cases h

/-- Blanks at the ends of a style text make no difference. -/
theorem read_around {lead trail : List Char} (hlead : AllBlank lead) (htrail : AllBlank trail)
    (cs : List Char) :
    read (String.ofList (lead ++ cs ++ trail)) = read (String.ofList cs) := by
  rw [read_eq, read_eq, String.toList_ofList, String.toList_ofList, prepared,
    Text.trim_around hlead htrail, ← prepared]

/-- A style text: words for attributes and what follows them, with blanks around. -/
def spelled (lead : List Char) (ws : List Spelling) (cs trail : List Char) : String :=
  String.ofList (lead ++ (ws.flatMap Spelling.text ++ cs) ++ trail)

/-- Behind the words for attributes a text describes the color that it describes alone. -/
theorem read_spelled {lead trail : List Char} (hlead : AllBlank lead) (htrail : AllBlank trail)
    (h : NoAttributeFirst cs) (ws : List Spelling) :
    read (spelled lead ws cs trail) =
      (readColor (prepared cs)).map fun color => ⟨.ofList (ws.map Spelling.meaning), color⟩ := by
  rw [spelled, read_around hlead htrail, read_eq, String.toList_ofList, takeAttributes_spelled h]

theorem read_noAttributeFirst (h : NoAttributeFirst cs) :
    read (String.ofList cs) = (readColor (prepared cs)).map fun color => ⟨.none, color⟩ := by
  rw [read_eq, String.toList_ofList, takeAttributes_of_none (leadingAttribute?_prepared h)]
  rfl

theorem has_ofList_meanings {ws : List Spelling} :
    (Attributes.ofList (ws.map Spelling.meaning)).has a = true ↔ ∃ w ∈ ws, w.meaning = a := by
  rw [Attributes.has_ofList, List.mem_map]

end Style

/-- The words for attributes in front of a style text add up to a set, apart from the color.
Behind them a text is read when it is read alone; the color is then the same, the
attributes are those that the words name, and an error quotes the text behind the words
only. So the order of the words, how often each is there, their case and the blanks make no
difference. Whatever the text, the loop ends, and each of its turns cuts off the first word
of what is left. -/
theorem attributes_apart_from_color :
    (∀ lead cs trail : List Char, AllBlank lead → AllBlank trail →
      Style.read (String.ofList (lead ++ cs ++ trail)) = Style.read (String.ofList cs)) ∧
    (∀ (lead : List Char) (ws : List Style.Spelling) (cs trail : List Char),
      AllBlank lead → AllBlank trail → Style.NoAttributeFirst cs →
      ((∃ s, Style.read (Style.spelled lead ws cs trail) = .ok s) ↔
        ∃ s, Style.read (String.ofList cs) = .ok s) ∧
      (∀ s s', Style.read (Style.spelled lead ws cs trail) = .ok s →
        Style.read (String.ofList cs) = .ok s' →
        s.color = s'.color ∧ ∀ a, s.attributes.has a = true ↔ ∃ w ∈ ws, w.meaning = a) ∧
      ∀ e, Style.read (Style.spelled lead ws cs trail) = .error e →
        e.message = "unable to parse color: " ++ String.ofList ((trim cs).map Char.toLower)) ∧
    (∀ (lead lead' : List Char) (ws ws' : List Style.Spelling) (cs trail trail' : List Char),
      AllBlank lead → AllBlank trail → AllBlank lead' → AllBlank trail' →
      Style.NoAttributeFirst cs →
      (∀ a, (∃ w ∈ ws, w.meaning = a) ↔ ∃ w ∈ ws', w.meaning = a) →
      Style.read (Style.spelled lead ws cs trail) =
        Style.read (Style.spelled lead' ws' cs trail')) ∧
    ∀ text : String,
      (∀ cs a size, Style.Visits (Style.prepared text.toList) cs →
        Style.leadingAttribute? cs = some (a, size) → Style.CutsFirstWord cs size) ∧
      Style.Visits (Style.prepared text.toList)
        (Style.takeAttributes (Style.prepared text.toList)).2 ∧
      Style.leadingAttribute? (Style.takeAttributes (Style.prepared text.toList)).2 = none := by
  refine ⟨fun lead cs trail hlead htrail => Style.read_around hlead htrail cs, ?_, ?_, ?_⟩
  · intro lead ws cs trail hlead htrail hcs
    rw [Style.read_spelled hlead htrail hcs, Style.read_noAttributeFirst hcs]
    cases hcolor : Style.readColor (Style.prepared cs) with
    | error e =>
      refine ⟨?_, ?_, ?_⟩
      · simp [Except.map]
      · intro s s' h
        cases h
      · intro e' h
        simp only [Except.map, Except.error.injEq] at h
        subst h
        exact Style.message_of_readColor_eq_error hcolor
    | ok color =>
      refine ⟨?_, ?_, ?_⟩
      · simp [Except.map]
      · intro s s' h h'
        obtain rfl := Except.ok.inj h
        obtain rfl := Except.ok.inj h'
        exact ⟨rfl, fun a => Style.has_ofList_meanings⟩
      · intro e h
        cases h
  · intro lead lead' ws ws' cs trail trail' hlead htrail hlead' htrail' hcs hsame
    have hset : Attributes.ofList (ws.map Style.Spelling.meaning) =
        Attributes.ofList (ws'.map Style.Spelling.meaning) := by
      refine Attributes.ext_has fun a => ?_
      rw [Style.has_ofList_meanings, Style.has_ofList_meanings, hsame]
    rw [Style.read_spelled hlead htrail hcs, Style.read_spelled hlead' htrail' hcs, hset]
  · intro text
    refine ⟨fun cs a size hvisits hleading => ?_, Style.visits_takeAttributes .start⟩
    have hsolid := hvisits.startsSolid (Style.startsSolid_prepared text.toList)
    exact Style.cutsFirstWord_of_leading hsolid hleading

namespace Style

/-- The word `BOLD` and a no-break space. -/
def shoutedBold : Spelling :=
  ⟨.bold, "BOLD".toList, ['\u00a0', ' '], by decide, by decide, by decide⟩

/-- The word `Underline` and a tab. -/
def titledUnderline : Spelling :=
  ⟨.underlined, "Underline".toList, ['\t'], by decide, by decide, by decide⟩

end Style

theorem attributes_apart_from_color_darkCyan :
    AllBlank [' '] ∧ AllBlank ['\u3000', '\n'] ∧ Style.NoAttributeFirst "Dark Cyan".toList ∧
      (∃ s, Style.read (Style.spelled [' '] [Style.shoutedBold, Style.titledUnderline,
          Style.shoutedBold] "Dark Cyan".toList ['\u3000', '\n']) = .ok s ∧
        s.color = some (.named .darkCyan) ∧ s.attributes.has .bold = true ∧
        s.attributes.has .underlined = true) ∧
      ∃ s, Style.read (String.ofList "BOLD".toList) = .ok s ∧ s.color = none ∧
        s.attributes.has .bold = true := by
  obtain ⟨haround, hapart, -, -⟩ := attributes_apart_from_color
  have hlead : AllBlank [' '] := by decide
  have htrail : AllBlank ['\u3000', '\n'] := by decide
  have hnil : AllBlank [] := by decide
  have hcs : Style.NoAttributeFirst "Dark Cyan".toList := by
    intro a
    cases a <;> decide
  refine ⟨hlead, htrail, hcs, ?_, ?_⟩
  · have halone : Style.read (String.ofList "Dark Cyan".toList) =
        .ok ⟨.none, some (.named .darkCyan)⟩ := by
      rw [Style.read_noAttributeFirst hcs]
      rfl
    obtain ⟨hread, hsame, -⟩ := hapart [' ']
      [Style.shoutedBold, Style.titledUnderline, Style.shoutedBold] _ _ hlead htrail hcs
    obtain ⟨s, hs⟩ := hread.mpr ⟨_, halone⟩
    obtain ⟨hcolor, hattributes⟩ := hsame s _ hs halone
    refine ⟨s, hs, hcolor, ?_, ?_⟩
    · exact (hattributes .bold).mpr ⟨Style.shoutedBold, by simp, rfl⟩
    · exact (hattributes .underlined).mpr ⟨Style.titledUnderline, by simp, rfl⟩
  · -- the last word needs no blanks behind it where nothing follows
    have hblank := Style.noAttributeFirst_of_allBlank hnil
    have halone : Style.read (String.ofList []) = .ok ⟨.none, none⟩ := by
      rw [Style.read_noAttributeFirst hblank]
      rfl
    obtain ⟨hread, hsame, -⟩ := hapart [] [Style.shoutedBold] [] [] hnil hnil hblank
    obtain ⟨s, hs⟩ := hread.mpr ⟨_, halone⟩
    obtain ⟨hcolor, hattributes⟩ := hsame s _ hs halone
    refine ⟨s, ?_, hcolor, (hattributes .bold).mpr ⟨Style.shoutedBold, by simp, rfl⟩⟩
    rw [← hs, ← haround [] "BOLD".toList ['\u00a0', ' '] hnil (by decide)]
    rfl

end ShellGloss
