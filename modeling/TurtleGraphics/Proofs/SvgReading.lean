import TurtleGraphics.Drawing.Svg
import TurtleGraphics.Proofs.Spelling

namespace TurtleGraphics

/-! # Reading drawings back

A reader for drawings as SVG, which knows nothing of what was drawn, and the proof that it finds in a
drawing's text all that was written there.

* `upTo?`, `attribute?`, `attributes`, `mark?`: the reader for a line of the text, which is a tag with
  attributes.
* `Picture`, `Picture.read?`: what a drawing shows, with each number by its written form, and the
  reader for the whole text.
* `mark?_leaf`, `mark?_opening`: a tag is read back if its values are plain, which the written forms
  of numbers and colors are.
* `document_lossless`: a drawing is read back, so that equal texts are of equal drawings.
-/

/-- The segment with another form for each of its numbers. -/
def Segment.map {α β : Type} (f : α → β) (s : Segment α) : Segment β :=
  ⟨f s.x₁, f s.y₁, f s.x₂, f s.y₂, s.color, f s.width⟩

namespace Svg

/-! ## The reader -/

/-- A character that a name can have. -/
def isNameChar (c : Char) : Bool :=
  c.isAlphanum || c == '-'

/-- What stands before the first mark and what stands after it. An angle bracket belongs to no name
and to no value, so none can stand before the mark. -/
def upTo? (mark : Char) : List Char → Option (List Char × List Char)
  | [] => none
  | c :: cs =>
    if c = mark then some ([], cs)
    else if c = '<' ∨ c = '>' then none
    else (upTo? mark cs).map fun (before, after) => (c :: before, after)

/-- An attribute, which begins with a blank, and what stands after it. -/
def attribute? : List Char → Option ((String × String) × List Char)
  | ' ' :: cs => match upTo? '=' cs with
    | some (name, '"' :: cs) =>
      (upTo? '"' cs).map fun (value, after) => ((String.ofList name, String.ofList value), after)
    | _ => none
  | _ => none

theorem length_lt_of_upTo? {mark : Char} {cs before after : List Char}
    (h : upTo? mark cs = some (before, after)) : after.length < cs.length := by
  induction cs generalizing before with
  | nil => cases h
  | cons c cs ih =>
    rw [upTo?] at h
    split_ifs at h
    · cases h
      exact Nat.lt_succ_self _
    · obtain ⟨⟨before', after'⟩, hrest, heq⟩ := Option.map_eq_some_iff.mp h
      cases heq
      exact (ih hrest).trans (Nat.lt_succ_self _)

theorem length_lt_of_attribute? {cs rest : List Char} {a : String × String}
    (h : attribute? cs = some (a, rest)) : rest.length < cs.length := by
  unfold attribute? at h
  split at h
  · split at h
    · rename_i hname
      obtain ⟨⟨value, after⟩, hvalue, heq⟩ := Option.map_eq_some_iff.mp h
      cases heq
      have hlt := length_lt_of_upTo? hname
      have hlt' := length_lt_of_upTo? hvalue
      simp only [List.length_cons] at *
      omega
    · cases h
  · cases h

/-- The attributes that come first, and what stands after them. -/
def attributes (cs : List Char) : List (String × String) × List Char :=
  match h : attribute? cs with
  | none => ([], cs)
  | some (a, rest) =>
    have := length_lt_of_attribute? h
    let (as, rest) := attributes rest
    (a :: as, rest)
termination_by cs.length

/-- What stands on a line: one end of an element, or an element without content. -/
inductive Mark where
  | opening (name : String) (attributes : List (String × String))
  | leaf (name : String) (attributes : List (String × String))
  | closing (name : String)
deriving DecidableEq, Repr

/-- The tag with a name, its attributes and what stands after them. -/
def Mark.ofTag? (name : String) : List (String × String) × List Char → Option Mark
  | (as, ['>']) => some (.opening name as)
  | (as, ['/', '>']) => some (.leaf name as)
  | _ => none

/-- Reads a line. -/
def mark? : List Char → Option Mark
  | '<' :: '/' :: cs => match upTo? '>' cs with
    | some (name, []) => some (.closing (String.ofList name))
    | _ => none
  | '<' :: cs =>
    Mark.ofTag? (String.ofList (cs.takeWhile isNameChar)) (attributes (cs.dropWhile isNameChar))
  | _ => none

/-- What a drawing shows: its size, the color of the background, and the segments in the order in which
they lie on it. -/
structure Picture where
  width : String
  height : String
  background : Color
  segments : List (Segment String)
deriving DecidableEq, Repr

/-- The segment that a line with these attributes shows. -/
def segment? (as : List (String × String)) : Option (Segment String) := do
  return {
    x₁ := ← as.lookup "x1"
    y₁ := ← as.lookup "y1"
    x₂ := ← as.lookup "x2"
    y₂ := ← as.lookup "y2"
    color := ← (as.lookup "stroke").bind Color.ofHex?
    width := ← as.lookup "stroke-width" }

/-- The segments up to the end of the drawing. There can be nothing else among them. -/
def segments? : List Mark → Option (List (Segment String))
  | [.closing "svg"] => some []
  | .leaf "line" as :: marks => do return (← segment? as) :: (← segments? marks)
  | _ => none

/-- What the lines of a drawing show: one background of its size, and then the segments. -/
def picture? : List Mark → Option Picture
  | .opening "svg" size :: .leaf "rect" area :: marks => do
    let width ← size.lookup "width"
    let height ← size.lookup "height"
    guard (size.lookup "viewBox" = some ("0 0 " ++ width ++ " " ++ height))
    guard (area.lookup "width" = some width ∧ area.lookup "height" = some height)
    return {
      width
      height
      background := ← (area.lookup "fill").bind Color.ofHex?
      segments := ← segments? marks }
  | _ => none

/-- Reads a drawing. -/
def Picture.read? (text : String) : Option Picture :=
  ((text.toList.splitOn '\n').mapM mark?).bind picture?

/-! ## Tags are read back -/

/-- A character that can stand between quotes on a line. -/
def IsPlainChar (c : Char) : Prop :=
  c ≠ '"' ∧ c ≠ '<' ∧ c ≠ '>' ∧ c ≠ '\n'

/-- A value that can stand between quotes on a line. -/
def IsPlain (value : String) : Prop :=
  ∀ c ∈ value.toList, IsPlainChar c

/-- The name of an element or of an attribute. -/
def IsName (name : String) : Prop :=
  name ≠ "" ∧ ∀ c ∈ name.toList, isNameChar c = true

/-- A tag's name and attributes are such that it can be read. -/
structure IsTag (name : String) (as : List (String × String)) : Prop where
  name : IsName name
  names : ∀ a ∈ as, IsName a.1
  values : ∀ a ∈ as, IsPlain a.2

theorem ne_of_isNameChar {c : Char} (h : isNameChar c = true) {d : Char}
    (hd : isNameChar d = false := by decide) : c ≠ d := by
  rintro rfl
  rw [h] at hd
  cases hd

theorem isPlainChar_of_isNameChar {c : Char} (h : isNameChar c = true) : IsPlainChar c :=
  ⟨ne_of_isNameChar h, ne_of_isNameChar h, ne_of_isNameChar h, ne_of_isNameChar h⟩

theorem IsPlain.append {a b : String} (ha : IsPlain a) (hb : IsPlain b) : IsPlain (a ++ b) := by
  intro c hc
  rw [String.toList_append] at hc
  exact (List.mem_append.mp hc).elim (ha c) (hb c)

theorem upTo?_append {mark : Char} {cs : List Char}
    (h : ∀ c ∈ cs, c ≠ mark ∧ c ≠ '<' ∧ c ≠ '>') (rest : List Char) :
    upTo? mark (cs ++ mark :: rest) = some (cs, rest) := by
  induction cs with
  | nil => simp [upTo?]
  | cons c cs ih =>
    obtain ⟨⟨hmark, hless, hgreater⟩, hcs⟩ := List.forall_mem_cons.mp h
    rw [List.cons_append, upTo?, if_neg hmark, if_neg (by simp [hless, hgreater]), ih hcs]
    rfl

theorem attribute?_assign {name value : String} (hname : IsName name) (hvalue : IsPlain value)
    (rest : List Char) :
    attribute? ((assign name value).toList ++ rest) = some ((name, value), rest) := by
  have hname' : ∀ c ∈ name.toList, c ≠ '=' ∧ c ≠ '<' ∧ c ≠ '>' := fun c hc =>
    have hc := hname.2 c hc
    ⟨ne_of_isNameChar hc, ne_of_isNameChar hc, ne_of_isNameChar hc⟩
  have hvalue' : ∀ c ∈ value.toList, c ≠ '"' ∧ c ≠ '<' ∧ c ≠ '>' := fun c hc =>
    have ⟨hquote, hless, hgreater, _⟩ := hvalue c hc
    ⟨hquote, hless, hgreater⟩
  have htext : (assign name value).toList ++ rest =
      ' ' :: (name.toList ++ '=' :: '"' :: (value.toList ++ '"' :: rest)) := by
    simp [assign]
  rw [htext, attribute?, upTo?_append hname']
  simp only [upTo?_append hvalue', Option.map_some, String.ofList_toList]

/-- Without a blank in front there is no attribute. -/
theorem attributes_of_end {rest : List Char} (h : rest.head? ≠ some ' ') :
    attributes rest = ([], rest) := by
  have hnone : attribute? rest = none := by
    unfold attribute?
    split
    · exact absurd rfl h
    · rfl
  rw [attributes]
  split
  · rfl
  · rename_i hsome
    rw [hnone] at hsome
    cases hsome

/-- The attributes of a tag as they are written. -/
def attributesText (as : List (String × String)) : List Char :=
  (String.join (as.map fun a => assign a.1 a.2)).toList

theorem attributesText_cons (a : String × String) (as : List (String × String)) :
    attributesText (a :: as) = (assign a.1 a.2).toList ++ attributesText as := by
  rw [attributesText, List.map_cons, String.join_cons, String.toList_append, attributesText]

theorem toList_tag (name : String) (as : List (String × String)) :
    (tag name as).toList = name.toList ++ attributesText as := by
  rw [tag, String.toList_append, attributesText]

theorem attributes_append {as : List (String × String)} (hnames : ∀ a ∈ as, IsName a.1)
    (hvalues : ∀ a ∈ as, IsPlain a.2) {rest : List Char} (h : rest.head? ≠ some ' ') :
    attributes (attributesText as ++ rest) = (as, rest) := by
  induction as with
  | nil => simpa [attributesText] using attributes_of_end h
  | cons a as ih =>
    obtain ⟨hname, hnames⟩ := List.forall_mem_cons.mp hnames
    obtain ⟨hvalue, hvalues⟩ := List.forall_mem_cons.mp hvalues
    have hfirst := attribute?_assign hname hvalue (attributesText as ++ rest)
    rw [attributesText_cons, List.append_assoc, attributes]
    split
    · rename_i hnone
      rw [hfirst] at hnone
      cases hnone
    · rename_i hsome
      rw [hfirst] at hsome
      cases hsome
      rw [ih hnames hvalues]

/-- A name ends where something stands that is no part of a name. -/
theorem name_append {name behind : List Char} (hname : ∀ c ∈ name, isNameChar c = true)
    (hbehind : ∀ c ∈ behind.head?, isNameChar c = false) :
    (name ++ behind).takeWhile isNameChar = name ∧
      (name ++ behind).dropWhile isNameChar = behind := by
  rw [List.takeWhile_append_of_pos hname, List.dropWhile_append_of_pos hname]
  cases behind with
  | nil => exact ⟨List.append_nil name, rfl⟩
  | cons c behind => simp [hbehind c rfl]

/-- A tag begins with its name, behind which the attributes are read. -/
theorem IsTag.read {name : String} {as : List (String × String)} (h : IsTag name as)
    {rest : List Char} (hrest : ∀ c ∈ rest.head?, isNameChar c = false ∧ c ≠ ' ') :
    let cs := (tag name as).toList ++ rest
    cs.takeWhile isNameChar = name.toList ∧ attributes (cs.dropWhile isNameChar) = (as, rest) := by
  have hstop : ∀ c ∈ (attributesText as ++ rest).head?, isNameChar c = false := by
    intro c hc
    cases as with
    | nil => exact (hrest c hc).1
    | cons a as =>
      -- every attribute has a blank in front
      obtain rfl : ' ' = c := by simpa [attributesText_cons, assign] using hc
      decide
  obtain ⟨htake, hdrop⟩ := name_append h.name.2 hstop
  intro cs
  have hcs : cs = name.toList ++ (attributesText as ++ rest) := by
    rw [← List.append_assoc, ← toList_tag]
  rw [hcs, htake, hdrop]
  exact ⟨rfl, attributes_append h.names h.values fun heq => (hrest ' ' heq).2 rfl⟩

theorem IsTag.mark?_eq {name : String} {as : List (String × String)} (h : IsTag name as)
    {rest : List Char} (hrest : ∀ c ∈ rest.head?, isNameChar c = false ∧ c ≠ ' ') :
    mark? ('<' :: ((tag name as).toList ++ rest)) = Mark.ofTag? name (as, rest) := by
  obtain ⟨hname, hattributes⟩ := h.read hrest
  have hfirst : ∀ cs, (tag name as).toList ++ rest ≠ '/' :: cs := by
    intro cs hcs
    rw [hcs, List.takeWhile_cons_of_neg (by decide)] at hname
    exact h.name.1 (String.toList_eq_nil_iff.mp hname.symm)
  unfold mark?
  split
  · rename_i cs hcs
    exact absurd (List.cons.inj hcs).2 (hfirst cs)
  · rename_i hcs
    rw [← (List.cons.inj hcs).2, hname, hattributes, String.ofList_toList]
  · rename_i hno
    exact absurd rfl (hno _)

/-- An element without content is read back. -/
theorem mark?_leaf {name : String} {as : List (String × String)} (h : IsTag name as) :
    mark? (leaf name as).toList = some (.leaf name as) := by
  have htext : (leaf name as).toList = '<' :: ((tag name as).toList ++ ['/', '>']) := by simp [leaf]
  have hend : ∀ c ∈ ['/', '>'].head?, isNameChar c = false ∧ c ≠ ' ' := by
    rintro c ⟨⟩
    decide
  rw [htext, h.mark?_eq hend, Mark.ofTag?]

/-- The beginning of an element is read back. -/
theorem mark?_opening {name : String} {as : List (String × String)} (h : IsTag name as) :
    mark? ("<" ++ tag name as ++ ">").toList = some (.opening name as) := by
  have htext : ("<" ++ tag name as ++ ">").toList = '<' :: ((tag name as).toList ++ ['>']) := by simp
  have hend : ∀ c ∈ ['>'].head?, isNameChar c = false ∧ c ≠ ' ' := by
    rintro c ⟨⟩
    decide
  rw [htext, h.mark?_eq hend, Mark.ofTag?]

/-- A tag does not go over the end of a line. -/
theorem IsTag.not_mem {name : String} {as : List (String × String)} (h : IsTag name as) :
    '\n' ∉ (tag name as).toList := by
  have hname : ∀ {name : String}, IsName name → '\n' ∉ name.toList :=
    fun h hmem => ne_of_isNameChar (h.2 _ hmem) (by decide) rfl
  have hassign : ∀ a ∈ as, '\n' ∉ (assign a.1 a.2).toList := by
    intro a ha
    have hvalue : '\n' ∉ a.2.toList := fun hmem => (h.values a ha _ hmem).2.2.2 rfl
    simp [assign, hname (h.names a ha), hvalue]
  have hattributes : '\n' ∉ attributesText as := by
    simpa [attributesText, String.toList_join] using fun name value ha => hassign (name, value) ha
  rw [toList_tag]
  exact List.not_mem_append (hname h.name) hattributes

/-! ## Drawings are read back -/

/-- The written form of a double is plain. -/
theorem isPlain_text (x : Float) : IsPlain (Decimal.text x) := by
  intro c hc
  rcases Decimal.isNumeralChar_of_mem hc with hdigit | hother
  · exact isPlainChar_of_isNameChar (by simp [isNameChar, Char.isAlphanum, hdigit])
  · have hplain : ∀ d ∈ ['-', '.', 'N', 'a', 'i', 'n', 'f'], IsPlainChar d := by simp [IsPlainChar]
    exact hplain c hother

theorem isNameChar_hexDigit : ∀ n < 16, isNameChar (Color.hexDigit n) = true := by decide

theorem isPlainChar_of_mem_channelText {v : UInt8} {c : Char} (h : c ∈ Color.channelText v) :
    IsPlainChar c := by
  have := v.toNat_lt
  simp only [Color.channelText, List.mem_cons, List.not_mem_nil, or_false] at h
  rcases h with rfl | rfl
  · exact isPlainChar_of_isNameChar (isNameChar_hexDigit _ (by omega))
  · exact isPlainChar_of_isNameChar (isNameChar_hexDigit _ (by omega))

/-- The written form of a color is plain. -/
theorem isPlain_color (color : Color) : IsPlain color.text := by
  intro c hc
  simp only [Color.text, String.toList_ofList, List.mem_cons, List.mem_append] at hc
  rcases hc with rfl | (hc | hc) | hc
  · simp [IsPlainChar]
  all_goals exact isPlainChar_of_mem_channelText hc

/-- The attributes of a segment's line. -/
def lineAttributes (s : Segment String) : List (String × String) :=
  [("stroke", s.color.text), ("stroke-linecap", "round"), ("stroke-width", s.width),
    ("x1", s.x₁), ("x2", s.x₂), ("y1", s.y₁), ("y2", s.y₂)]

/-- The attributes of the background. -/
def areaAttributes (width height : String) : List (String × String) :=
  [("fill", Color.white.text), ("height", height), ("width", width)]

/-- The attributes of the whole drawing. -/
def sizeAttributes (width height : String) : List (String × String) :=
  [("height", height), ("viewBox", "0 0 " ++ width ++ " " ++ height), ("width", width),
    ("xmlns", "http://www.w3.org/2000/svg")]

theorem line_eq (s : Segment Float) :
    line s = leaf "line" (lineAttributes (s.map Decimal.text)) := rfl

theorem background_eq (width height : Float) :
    background width height =
      leaf "rect" (areaAttributes (Decimal.text width) (Decimal.text height)) := rfl

theorem opening_eq (width height : Float) :
    opening width height =
      "<" ++ tag "svg" (sizeAttributes (Decimal.text width) (Decimal.text height)) ++ ">" := rfl

theorem isTag_line (s : Segment Float) : IsTag "line" (lineAttributes (s.map Decimal.text)) where
  name := by simp [IsName, isNameChar]
  names := by simp [IsName, lineAttributes, isNameChar]
  values := by
    have hround : IsPlain "round" := by simp [IsPlain, IsPlainChar]
    simp [lineAttributes, Segment.map, isPlain_text, isPlain_color, hround]

theorem isTag_rect (width height : Float) :
    IsTag "rect" (areaAttributes (Decimal.text width) (Decimal.text height)) where
  name := by simp [IsName, isNameChar]
  names := by simp [IsName, areaAttributes, isNameChar]
  values := by simp [areaAttributes, isPlain_text, isPlain_color]

theorem isTag_svg (width height : Float) :
    IsTag "svg" (sizeAttributes (Decimal.text width) (Decimal.text height)) where
  name := by simp [IsName, isNameChar]
  names := by simp [IsName, sizeAttributes, isNameChar]
  values := by
    have hzeros : IsPlain "0 0 " := by simp [IsPlain, IsPlainChar]
    have hblank : IsPlain " " := by simp [IsPlain, IsPlainChar]
    have hbox := ((hzeros.append (isPlain_text width)).append hblank).append (isPlain_text height)
    have hspace : IsPlain "http://www.w3.org/2000/svg" := by simp [IsPlain, IsPlainChar]
    simp [sizeAttributes, isPlain_text, hbox, hspace]

/-- What stands on the lines of a drawing. -/
def marks (segments : List (Segment String)) (width height : String) : List Mark :=
  .opening "svg" (sizeAttributes width height) :: .leaf "rect" (areaAttributes width height) ::
    (segments.map fun s => .leaf "line" (lineAttributes s)) ++ [.closing "svg"]

theorem mapM_mark?_lines (segments : List (Segment Float)) (width height : Float) :
    ((lines segments width height).map String.toList).mapM mark? =
      some (marks (segments.map (·.map Decimal.text)) (Decimal.text width) (Decimal.text height)) := by
  have hclosing : ["</svg>".toList].mapM mark? = some [.closing "svg"] := by simp [mark?, upTo?]
  have hsegments : (segments.map (line · |>.toList) ++ ["</svg>".toList]).mapM mark? =
      some (segments.map (fun s => .leaf "line" (lineAttributes (s.map Decimal.text)))
        ++ [.closing "svg"]) := by
    induction segments with
    | nil => exact hclosing
    | cons s segments ih =>
      rw [List.map_cons, List.cons_append, List.mapM_cons, ih, line_eq, mark?_leaf (isTag_line s)]
      rfl
  have hopening := mark?_opening (isTag_svg width height)
  have hbackground := mark?_leaf (isTag_rect width height)
  rw [← opening_eq] at hopening
  rw [← background_eq] at hbackground
  rw [lines, List.map_append, List.map_cons, List.map_cons, List.cons_append, List.cons_append,
    List.mapM_cons, List.mapM_cons, hopening, hbackground]
  simp only [List.map_map, Function.comp_def, List.map_cons, List.map_nil, hsegments, marks]
  rfl

theorem splitOn_document (segments : List (Segment Float)) (width height : Float) :
    (document segments width height).toList.splitOn '\n' =
      (lines segments width height).map String.toList := by
  have hline : ∀ l ∈ lines segments width height, '\n' ∉ l.toList := by
    intro l hl
    simp only [lines, List.cons_append, List.mem_cons, List.mem_append, List.mem_map,
      List.not_mem_nil, or_false] at hl
    rcases hl with rfl | rfl | ⟨s, -, rfl⟩ | rfl
    · simp [opening_eq, (isTag_svg width height).not_mem]
    · simp [background_eq, leaf, (isTag_rect width height).not_mem]
    · simp [line_eq, leaf, (isTag_line s).not_mem]
    · simp
  rw [document, String.toList_intercalate]
  exact List.splitOn_intercalate '\n' (by simpa using hline) (by simp [lines])

theorem segment?_lineAttributes (s : Segment String) : segment? (lineAttributes s) = some s := by
  simp [segment?, lineAttributes, List.lookup, Color.ofHex?_text]

theorem segments?_map (segments : List (Segment String)) :
    segments? ((segments.map fun s => .leaf "line" (lineAttributes s)) ++ [.closing "svg"]) =
      some segments := by
  induction segments with
  | nil => simp [segments?]
  | cons s segments ih =>
    simp [segments?, segment?_lineAttributes, ih]

theorem picture?_marks (segments : List (Segment String)) (width height : String) :
    picture? (marks segments width height) = some ⟨width, height, .white, segments⟩ := by
  have hsegments := segments?_map segments
  simp [picture?, marks, sizeAttributes, areaAttributes, List.lookup, Color.ofHex?_text, hsegments]

/-- A drawing is read back from its text. -/
theorem Picture.read?_document (segments : List (Segment Float)) (width height : Float) :
    Picture.read? (document segments width height) =
      some ⟨Decimal.text width, Decimal.text height, .white, segments.map (·.map Decimal.text)⟩ := by
  rw [read?, splitOn_document, mapM_mark?_lines, Option.bind_some, picture?_marks]

/-- Of numbers only their written forms go into a drawing's text. -/
theorem document_eq (segments : List (Segment Float)) (width height : Float) :
    document segments width height = "\n".intercalate
      (("<" ++ tag "svg" (sizeAttributes (Decimal.text width) (Decimal.text height)) ++ ">") ::
        leaf "rect" (areaAttributes (Decimal.text width) (Decimal.text height)) ::
        (segments.map (·.map Decimal.text)).map (fun s => leaf "line" (lineAttributes s))
          ++ ["</svg>"]) := by
  rw [document, lines, opening_eq, background_eq, List.map_map]
  rfl

/-- A drawing's text loses nothing. It begins with the drawing's size and holds one background, which
is white, and then one line for each segment; from it the reader gets the written form of each number,
and the colors. Two drawings have the same text just when all of these are the same. -/
theorem document_lossless (segments : List (Segment Float)) (width height : Float) :
    Picture.read? (document segments width height) =
        some ⟨Decimal.text width, Decimal.text height, .white, segments.map (·.map Decimal.text)⟩ ∧
      ∀ (segments' : List (Segment Float)) (width' height' : Float),
        document segments width height = document segments' width' height' ↔
          Decimal.text width = Decimal.text width' ∧ Decimal.text height = Decimal.text height' ∧
            segments.map (·.map Decimal.text) = segments'.map (·.map Decimal.text) := by
  refine ⟨Picture.read?_document segments width height, fun segments' width' height' => ⟨?_, ?_⟩⟩
  · intro heq
    have hread := Picture.read?_document segments width height
    rw [heq, Picture.read?_document] at hread
    simp only [Option.some.injEq, Picture.mk.injEq, true_and] at hread
    obtain ⟨hwidth, hheight, hsegments⟩ := hread
    exact ⟨hwidth.symm, hheight.symm, hsegments.symm⟩
  · rintro ⟨hwidth, hheight, hsegments⟩
    rw [document_eq, document_eq, hwidth, hheight, hsegments]

end Svg

end TurtleGraphics
