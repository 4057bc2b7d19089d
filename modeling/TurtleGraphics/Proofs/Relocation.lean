import TurtleGraphics.Workspace
import TurtleGraphics.Proofs.Reading
import TurtleGraphics.Proofs.Scanning

namespace TurtleGraphics

open Text (Span Token)

/-! # Relocation

Programs carry the places of their parts in the text, and say them again in diagnostics, but never
act on them. So if every span is changed by the same function, the program is read and carried out
as before, with the spans of the diagnostics changed by that function.

* `mapSpan`, for everything that holds spans: a change of the spans alone.
* `Draft.Takes.onTop`, `Draft.run_onTop`: reading relocated tokens on top of code that is already
  there comes to the relocated program on top of that code.
* `Command.action_mapSpan`: a relocated command is the same action, with relocated warnings.
* `Block.run_mapSpan`: if relocation is respected by every statement, it is respected by blocks.
-/

section MapSpan

variable (f : Span → Span)

/-- The command with its spans changed. -/
def Command.mapSpan (c : Command) : Command :=
  ⟨c.primitive, c.inputs.map (·.mapSpan f), f c.span⟩

/-- The statement with its spans changed. -/
def Statement.mapSpan : Statement → Statement
  | .command c => .command (c.mapSpan f)
  | .unknown word span => .unknown word (f span)
  | .stray value span => .stray value (f span)

/-- The instruction with its spans changed. -/
def Instr.mapSpan : Instr → Instr
  | .statement s => .statement (s.mapSpan f)
  | .loop count len span => .loop count len (f span)

/-- The block with its spans changed. -/
def Block.mapSpan : Block → Block
  | .done => .done
  | .statement s next => .statement (s.mapSpan f) next.mapSpan
  | .loop count span body next => .loop count (f span) body.mapSpan next.mapSpan

/-- The problem with its span changed. -/
def Problem.mapSpan : Problem → Problem
  | .malformed fault span => .malformed fault (f span)
  | .unknownWord word span => .unknownWord word (f span)
  | .unusedValue value span => .unusedValue value (f span)

/-- The warning with its span changed. -/
def Warning.mapSpan : Warning → Warning
  | .malformedInput command input span => .malformedInput command input (f span)
  | .missingInput command span => .missingInput command (f span)
  | .unknownColor name fallback span => .unknownColor name fallback (f span)

theorem Block.flatten_mapSpan (b : Block) :
    (b.mapSpan f).flatten = b.flatten.map (·.mapSpan f) := by
  induction b with
  | done => rfl
  | statement s next ih => simp [Block.mapSpan, Block.flatten, Instr.mapSpan, ih]
  | loop count span body next ihbody ihnext =>
    simp [Block.mapSpan, Block.flatten, Instr.mapSpan, ihbody, ihnext]

/-! ## Reading relocated tokens -/

@[simp] theorem Token.text_mapSpan (t : Token) : (t.mapSpan f).text = t.text := rfl

@[simp] theorem Token.span_mapSpan (t : Token) : (t.mapSpan f).span = f t.span := rfl

@[simp] theorem Token.isOpen_mapSpan (t : Token) : (t.mapSpan f).isOpen = t.isOpen := rfl

@[simp] theorem Token.isClose_mapSpan (t : Token) : (t.mapSpan f).isClose = t.isClose := rfl

@[simp] theorem Token.isValue_mapSpan (t : Token) : (t.mapSpan f).isValue = t.isValue := rfl

@[simp] theorem Token.isInput_mapSpan (t : Token) : (t.mapSpan f).isInput = t.isInput := rfl

theorem takeWhile_isInput_map (ts : List Token) :
    (ts.map (·.mapSpan f)).takeWhile (·.isInput) =
      (ts.takeWhile (·.isInput)).map (·.mapSpan f) := by
  rw [List.takeWhile_map]
  rfl

theorem dropWhile_isInput_map (ts : List Token) :
    (ts.map (·.mapSpan f)).dropWhile (·.isInput) =
      (ts.dropWhile (·.isInput)).map (·.mapSpan f) := by
  rw [List.dropWhile_map]
  rfl

theorem readStatement_mapSpan (first : Token) (rest : List Token) :
    readStatement (first.mapSpan f) (rest.map (·.mapSpan f)) =
      match readStatement first rest with
      | .error p => .error (p.mapSpan f)
      | .ok (s, ts) => .ok (s.mapSpan f, ts.map (·.mapSpan f)) := by
  by_cases hopen : first.isOpen = true
  · simp [readStatement, hopen, Problem.mapSpan]
  cases hfind : Primitive.find? first.text with
  | some p =>
    simp only [readStatement, Token.isOpen_mapSpan, Token.text_mapSpan, hopen, hfind,
      ← List.map_take, takeWhile_isInput_map, List.length_map, ← List.map_drop]
    rfl
  | none =>
    by_cases hvalue : first.isValue = true
    · simp [readStatement, hopen, hfind, hvalue, Statement.mapSpan]
    · simp [readStatement, hopen, hfind, hvalue, dropWhile_isInput_map, Statement.mapSpan]

theorem readLoopHead_mapSpan (start : Token) (rest : List Token) :
    readLoopHead (start.mapSpan f) (rest.map (·.mapSpan f)) =
      match readLoopHead start rest with
      | .error p => .error (p.mapSpan f)
      | .ok head => .ok ⟨head.count, head.bracket.mapSpan f, head.rest.map (·.mapSpan f)⟩ := by
  cases rest with
  | nil => rfl
  | cons t rest =>
    by_cases hbracket : (t.isOpen || t.isClose) = true
    · simp [readLoopHead, hbracket, Problem.mapSpan]
    cases hcount : readCount? t.text with
    | none => simp [readLoopHead, hbracket, hcount, Problem.mapSpan]
    | some n =>
      cases rest with
      | nil => simp [readLoopHead, hbracket, hcount, Problem.mapSpan]
      | cons b rest =>
        by_cases hopen : b.isOpen = true
        · simp [readLoopHead, hbracket, hcount, hopen]
        · simp [readLoopHead, hbracket, hcount, hopen, Problem.mapSpan]

/-! ## Reading on top of other code -/

variable (code₀ : Array Instr)

/-- The program with its spans changed, on top of code that was there before. -/
def Program.onTop (p : Program) : Program where
  code := code₀ ++ p.code.map (·.mapSpan f)
  fault := p.fault.map (·.mapSpan f)

namespace Draft

/-- The draft with its spans changed, on top of code that was there before. -/
def onTop (d : Draft) : Draft where
  rest := d.rest.map (·.mapSpan f)
  code := code₀ ++ d.code.map (·.mapSpan f)
  opened := d.opened.map fun o => ⟨code₀.size + o.index, o.bracket.mapSpan f⟩

theorem rest_onTop {d : Draft} {t : Token} {rest : List Token} (h : d.rest = t :: rest) :
    (d.onTop f code₀).rest = t.mapSpan f :: rest.map (·.mapSpan f) := by
  simp [onTop, h]

theorem outermost?_onTop (d : Draft) :
    (d.onTop f code₀).outermost? =
      d.outermost?.map fun o => ⟨code₀.size + o.index, o.bracket.mapSpan f⟩ := by
  simp [outermost?, onTop]

theorem finish_onTop (d : Draft) (fault : Option Problem) :
    (d.onTop f code₀).finish (fault.map (·.mapSpan f)) = (d.finish fault).onTop f code₀ := by
  unfold finish
  rw [outermost?_onTop]
  cases d.outermost? with
  | none => rfl
  | some o =>
    -- the cut is at the loop's place, which lies after all of the other code
    have htake : (code₀ ++ d.code.map (·.mapSpan f)).take (code₀.size + o.index) =
        code₀ ++ (d.code.take o.index).map (·.mapSpan f) := by
      apply Array.ext'
      simp [List.take_of_length_le]
    simp [onTop, Program.onTop, htake]

/-- Filling in a loop's length needs the size of the code only from the loop on. -/
theorem modify_onTop (code : Array Instr) (i : Nat) :
    (code₀ ++ code.map (·.mapSpan f)).modify (code₀.size + i)
        (.withLen ((code₀ ++ code.map (·.mapSpan f)).size - (code₀.size + i) - 1)) =
      code₀ ++ (code.modify i (.withLen (code.size - i - 1))).map (·.mapSpan f) := by
  have hlen : (code₀ ++ code.map (·.mapSpan f)).size - (code₀.size + i) - 1 =
      code.size - i - 1 := by
    rw [Array.size_append, Array.size_map]
    omega
  have hcomm : ∀ (len : Nat) (x : Instr),
      (x.mapSpan f).withLen len = (x.withLen len).mapSpan f := by
    intro len x
    cases x <;> rfl
  rw [hlen]
  apply Array.ext_getElem?
  intro j
  rw [Array.getElem?_modify]
  grind

theorem Takes.onTop {d d' : Draft} (h : Takes d d') :
    Takes (d.onTop f code₀) (d'.onTop f code₀) := by
  cases h with
  | @close t rest code o opened hclose =>
    have hmodify := modify_onTop f code₀ code o.index
    unfold Draft.onTop
    rw [← hmodify]
    exact .close hclose
  | @loop t rest code opened head hrepeat hhead =>
    have hrelocated := readLoopHead_mapSpan f t rest
    rw [hhead] at hrelocated
    have htakes : Takes
        (Draft.onTop f code₀ ⟨t :: rest, code, opened⟩) _ := .loop hrepeat hrelocated
    simpa [Draft.onTop, Instr.mapSpan] using htakes
  | @statement t rest code opened s rest' hclose hrepeat hs =>
    have hrelocated := readStatement_mapSpan f t rest
    rw [hs] at hrelocated
    have htakes : Takes
        (Draft.onTop f code₀ ⟨t :: rest, code, opened⟩) _ := .statement hclose hrepeat hrelocated
    simpa [Draft.onTop, Instr.mapSpan] using htakes

theorem Breaks.mapSpan {t : Token} {rest : List Token} {p : Problem} (h : Breaks t rest p) :
    Breaks (t.mapSpan f) (rest.map (·.mapSpan f)) (p.mapSpan f) := by
  rcases h with ⟨hrepeat, hhead⟩ | ⟨hclose, hrepeat, hs⟩
  · left
    exact ⟨hrepeat, by rw [readLoopHead_mapSpan, hhead]⟩
  · right
    exact ⟨hclose, hrepeat, by rw [readStatement_mapSpan, hs]⟩

theorem Stops.onTop {d : Draft} {fault : Option Problem} (h : Stops d fault) :
    Stops (d.onTop f code₀) (fault.map (·.mapSpan f)) := by
  cases h with
  | ended hrest =>
    have hended : Stops (d.onTop f code₀) _ := .ended (by simp [Draft.onTop, hrest])
    rw [outermost?_onTop, Option.map_map] at hended
    rw [Option.map_map]
    exact hended
  | unmatched hrest hclose hopened =>
    have hopened' : (d.onTop f code₀).opened = [] := by simp [Draft.onTop, hopened]
    exact .unmatched (rest_onTop f code₀ hrest) hclose hopened'
  | broken hrest hbreaks => exact .broken (rest_onTop f code₀ hrest) (hbreaks.mapSpan f)

/-- Relocated tokens are read on top of other code as the relocated program on top of it. -/
theorem run_onTop (d : Draft) : (d.onTop f code₀).run = d.run.onTop f code₀ := by
  fun_induction run d with
  | case1 d d' h _ ih =>
    rw [← ih]
    exact run_of_inl (step_eq_inl.mp h |>.onTop f code₀).step_eq
  | case2 d p h =>
    obtain ⟨fault, hstops, rfl⟩ := step_eq_inr.mp h
    rw [← finish_onTop]
    exact run_of_inr (hstops.onTop f code₀).step_eq

end Draft

/-- What comes after a sentence is read on top of it. -/
theorem Sentence.run_append {ts us : List Token} {b : Block} (h : Sentence ts b)
    (hus : StartsFresh (us.map (·.mapSpan f))) :
    (Draft.start (ts ++ us.map (·.mapSpan f))).run =
      (Draft.start us).run.onTop f b.flatten.toArray := by
  -- the tokens of the sentence are used up when the reading comes to the others
  have hsteps := h.steps hus #[] []
  have hstart : (⟨us.map (·.mapSpan f), #[] ++ b.flatten.toArray, []⟩ : Draft) =
      (Draft.start us).onTop f b.flatten.toArray := by
    simp [Draft.onTop, Draft.start]
  rw [hstart] at hsteps
  rw [Draft.start, hsteps.run_eq, Draft.run_onTop]

/-! ## Carrying out relocated statements -/

/-- The same value, with the spans of the warnings changed. -/
def Warned.mapSpan {β : Type} (w : Warned β) : Warned β :=
  ⟨w.value, w.warnings.map (·.mapSpan f)⟩

namespace Command

theorem number_mapSpan (c : Command) (i : Nat) :
    (c.mapSpan f).number i = (c.number i).mapSpan f := by
  simp only [number, mapSpan, List.getElem?_map]
  cases c.inputs[i]? with
  | none => rfl
  | some t =>
    simp only [Option.map_some, Token.text_mapSpan, Token.span_mapSpan]
    cases Decimal.finite? t.text <;> rfl

theorem color_mapSpan (c : Command) (palette : Palette) :
    (c.mapSpan f).color palette = (c.color palette).mapSpan f := by
  simp only [color, mapSpan, List.getElem?_map]
  cases c.inputs[0]? with
  | none => rfl
  | some t =>
    simp only [Option.map_some, Token.text_mapSpan, Token.span_mapSpan]
    cases (palette.resolve (unquote t.text)).or (Color.ofHex? (unquote t.text)) <;> rfl

theorem one_mapSpan (c : Command) (g : Float → Action Float) :
    (c.mapSpan f).one g = (c.one g).mapSpan f := by
  simp [one, number_mapSpan, Warned.mapSpan]

theorem two_mapSpan (c : Command) (g : Float → Float → Action Float) :
    (c.mapSpan f).two g = (c.two g).mapSpan f := by
  simp [two, number_mapSpan, Warned.mapSpan]

/-- Spans say nothing about what a command does. -/
theorem action_mapSpan (c : Command) (palette : Palette) :
    (c.mapSpan f).action palette = (c.action palette).mapSpan f := by
  have hprimitive : (c.mapSpan f).primitive = c.primitive := rfl
  unfold action
  rw [hprimitive]
  cases c.primitive <;> simp only [one_mapSpan, two_mapSpan, color_mapSpan] <;> rfl

end Command

/-- What relocation does to every statement it does to blocks: if `h` turns the states of one run
into those of another statement by statement, then it does so block by block. -/
theorem Block.run_mapSpan {σ τ : Type} {act : σ → Statement → σ} {act' : τ → Statement → τ}
    {h : σ → τ} (hact : ∀ e s, act' (h e) (s.mapSpan f) = h (act e s)) (b : Block) (e : σ) :
    (b.mapSpan f).run act' (h e) = h (b.run act e) := by
  induction b generalizing e with
  | done => rfl
  | statement s next ih =>
    simp only [Block.mapSpan, Block.run]
    rw [hact, ih]
  | loop count span body next ihbody ihnext =>
    simp only [Block.mapSpan, Block.run]
    -- what holds of one pass through the body holds of all of them
    have hpasses : Function.Semiconj h (body.run act) ((body.mapSpan f).run act') :=
      fun e => (ihbody e).symm
    rw [← (hpasses.iterate_right count).eq, ihnext]

end MapSpan

end TurtleGraphics
