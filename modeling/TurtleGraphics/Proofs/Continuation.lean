import TurtleGraphics.Proofs.Relocation

namespace TurtleGraphics

open Text (Token Position tokens tokensAt)

/-! # What may follow a fault

A text with a fault is either the beginning of a text without one, or so wrong that nothing after it
matters. Which of the two it is shows at the place where the reading stops.

* `Offends`: a token with which no statement and no loop begins, and what is reported of it.
* `CutShort`: the tokens end before the statement at which the reading stops is complete.
* `Draft.Steps.extend`: the reading goes the same way if more tokens follow.
* `CutShort.exists_completion`: tokens that are cut short can be completed.
* `Draft.Stops.extend`: if they are not, the reading stops there whatever follows.
* `RanOut`: the faults of texts that are cut short.

`fault_incomplete_or_final` is the consequence for texts.
-/

/-! ## Offending tokens -/

/-- The token `t` begins neither a statement nor a loop when these tokens follow it, and this is the
problem. -/
inductive Offends (t : Token) : List Token → Problem → Prop where
  | noCount : t.text = repeatWord → Offends t [] (.malformed .missingCount t.span)
  | bracketForCount {c rest} : t.text = repeatWord → (c.isOpen || c.isClose) = true →
      Offends t (c :: rest) (.malformed .missingCount t.span)
  | badCount {c rest} : t.text = repeatWord → (c.isOpen || c.isClose) = false →
      readCount? c.text = none → Offends t (c :: rest) (.malformed (.badCount c.text) c.span)
  | noBody {c n} : t.text = repeatWord → IsCount c.text n →
      Offends t [c] (.malformed .missingBody c.span)
  | otherForBody {c n b rest} : t.text = repeatWord → IsCount c.text n → b.isOpen = false →
      Offends t (c :: b :: rest) (.malformed .missingBody b.span)
  | unasked {rest} : t.isOpen = true → Offends t rest (.malformed .unexpectedOpen t.span)

theorem breaks_iff_offends {t : Token} {rest : List Token} {p : Problem} :
    Draft.Breaks t rest p ↔ Offends t rest p := by
  constructor
  · rintro (⟨hrepeat, hhead⟩ | ⟨-, -, hs⟩)
    · unfold readLoopHead at hhead
      split at hhead
      · cases hhead
        exact .noCount hrepeat
      · split at hhead
        · cases hhead
          exact .bracketForCount hrepeat ‹_›
        · rename_i hbracket
          split at hhead
          · cases hhead
            exact .badCount hrepeat (by simpa using hbracket) ‹_›
          · have hcount := readCount?_eq_some.mp ‹_›
            split at hhead
            · cases hhead
              exact .noBody hrepeat hcount
            · split at hhead
              · cases hhead
              · rename_i hopen
                cases hhead
                exact .otherForBody hrepeat hcount (by simpa using hopen)
    · unfold readStatement at hs
      split at hs
      · cases hs
        exact .unasked ‹_›
      · split at hs
        · cases hs
        · split at hs <;> cases hs
  · intro h
    cases h with
    | noCount hrepeat => exact .inl ⟨hrepeat, rfl⟩
    | bracketForCount hrepeat hbracket => exact .inl ⟨hrepeat, by simp [readLoopHead, hbracket]⟩
    | badCount hrepeat hbracket hcount =>
      exact .inl ⟨hrepeat, by simp [readLoopHead, hbracket, hcount]⟩
    | noBody hrepeat hcount =>
      obtain ⟨h₁, h₂⟩ := hcount.not_bracket
      exact .inl ⟨hrepeat, by simp [readLoopHead, h₁, h₂, readCount?_eq_some.mpr hcount]⟩
    | otherForBody hrepeat hcount hopen =>
      obtain ⟨h₁, h₂⟩ := hcount.not_bracket
      exact .inl ⟨hrepeat, by simp [readLoopHead, h₁, h₂, readCount?_eq_some.mpr hcount, hopen]⟩
    | unasked hopen =>
      have htext := Token.isOpen_iff.mp hopen
      refine .inr ⟨?_, ?_, by simp [readStatement, hopen]⟩
      · simp [Text.Token.isClose, htext]
      · simp [htext, repeatWord]

/-- The tokens end before the statement that they begin with is complete, or before there is one. -/
inductive CutShort : List Token → Prop where
  | nothing : CutShort []
  | word {t} : t.text = repeatWord → CutShort [t]
  | count {t c n} : t.text = repeatWord → IsCount c.text n → CutShort [t, c]

/-- Unless the tokens are cut short, a token that offends does so whatever follows. -/
theorem Offends.append {t : Token} {rest : List Token} {p : Problem} (h : Offends t rest p)
    (hcut : ¬ CutShort (t :: rest)) (more : List Token) : Offends t (rest ++ more) p := by
  cases h with
  | noCount hrepeat => exact absurd (.word hrepeat) hcut
  | bracketForCount hrepeat hbracket => exact .bracketForCount hrepeat hbracket
  | badCount hrepeat hbracket hcount => exact .badCount hrepeat hbracket hcount
  | noBody hrepeat hcount => exact absurd (.count hrepeat hcount) hcut
  | otherForBody hrepeat hcount hopen => exact .otherForBody hrepeat hcount hopen
  | unasked hopen => exact .unasked hopen

/-! ## More tokens -/

theorem StartsFresh.append_of_nil {rest more : List Token} (h : StartsFresh rest)
    (hmore : rest = [] → StartsFresh more) : StartsFresh (rest ++ more) := by
  cases rest with
  | nil => exact hmore rfl
  | cons t ts => exact startsFresh_cons.mpr (startsFresh_cons.mp h)

namespace Draft

/-- The draft with more tokens at the end of those that are left. -/
def extend (d : Draft) (more : List Token) : Draft := { d with rest := d.rest ++ more }

/-- A step is the same if more tokens follow. If it takes all that is left, the next token may not be
an input, or its statement might take that too. -/
theorem Takes.extend {d d' : Draft} (h : Takes d d') {more : List Token}
    (hmore : d'.rest = [] → StartsFresh more) : Takes (d.extend more) (d'.extend more) := by
  cases h with
  | close hclose => exact .close hclose
  | @loop t rest code opened head hrepeat hhead =>
    obtain ⟨count, rfl, hcount, hopen⟩ := readLoopHead_eq_ok.mp hhead
    have hhead' : readLoopHead t (count :: head.bracket :: (head.rest ++ more)) =
        .ok ⟨head.count, head.bracket, head.rest ++ more⟩ :=
      readLoopHead_eq_ok.mpr ⟨count, rfl, hcount, hopen⟩
    exact .loop hrepeat hhead'
  | @statement t rest code opened s rest' hclose hrepeat hs =>
    obtain ⟨run, rfl, hphrase⟩ := (readStatement_eq_ok hclose hrepeat).mp hs
    refine .statement hclose hrepeat ((readStatement_eq_ok hclose hrepeat).mpr ?_)
    exact ⟨run, List.append_assoc .., hphrase.of_startsFresh (·.append_of_nil hmore)⟩

theorem Takes.rest_suffix {d d' : Draft} (h : Takes d d') : d'.rest <:+ d.rest := by
  cases h with
  | close => exact List.suffix_cons ..
  | loop hrepeat hhead =>
    obtain ⟨count, rfl, -, -⟩ := readLoopHead_eq_ok.mp hhead
    exact ⟨[_, _, _], rfl⟩
  | statement hclose hrepeat hs =>
    obtain ⟨run, rfl, -⟩ := (readStatement_eq_ok hclose hrepeat).mp hs
    exact ⟨_ :: run, rfl⟩

theorem Steps.rest_suffix {d d' : Draft} (h : Steps d d') : d'.rest <:+ d.rest := by
  induction h with
  | refl => exact List.suffix_refl _
  | tail _ hstep ih => exact (step_eq_inl.mp hstep).rest_suffix.trans ih

theorem Steps.extend {d d' : Draft} (h : Steps d d') {more : List Token}
    (hmore : d'.rest = [] → StartsFresh more) : Steps (d.extend more) (d'.extend more) := by
  induction h using Relation.ReflTransGen.head_induction_on with
  | refl => exact .refl
  | @head d d₁ hstep hrest ih =>
    -- once the tokens have ended, they stay so
    have hmore₁ : d₁.rest = [] → StartsFresh more := by
      intro hnil
      have hsuffix := Steps.rest_suffix hrest
      rw [hnil] at hsuffix
      exact hmore (List.suffix_nil.mp hsuffix)
    exact .head ((step_eq_inl.mp hstep).extend hmore₁).step_eq ih

theorem steps_last (d : Draft) : Steps d d.last := by
  fun_induction last d with
  | case1 d d' h _ ih => exact .head h ih
  | case2 d p h => exact .refl

/-- Unless the tokens are cut short, the reading stops for the same reason whatever follows. -/
theorem Stops.extend {d : Draft} {p : Problem} (h : Stops d (some p)) (hcut : ¬ CutShort d.rest)
    (more : List Token) : Stops (d.extend more) (some p) := by
  generalize hfault : some p = fault at h
  cases h with
  | ended hrest => exact absurd (hrest ▸ .nothing) hcut
  | unmatched hrest hclose hopened =>
    exact .unmatched (by rw [Draft.extend, hrest]; rfl) hclose hopened
  | broken hrest hbreaks =>
    rw [hrest] at hcut
    have hoffends := (breaks_iff_offends.mp hbreaks).append hcut more
    exact .broken (by rw [Draft.extend, hrest]; rfl) (breaks_iff_offends.mpr hoffends)

theorem Stops.startsFresh {d : Draft} {fault : Option Problem} (h : Stops d fault) :
    StartsFresh d.rest := by
  cases h with
  | ended hrest =>
    rw [hrest]
    exact startsFresh_nil
  | unmatched hrest hclose =>
    rw [hrest]
    exact startsFresh_mark (.inr (.inl hclose))
  | broken hrest hbreaks =>
    rw [hrest]
    exact startsFresh_mark hbreaks.mark

end Draft

/-! ## Completions -/

/-- So many closing brackets. -/
def closings (n : Nat) : List Char := List.replicate n ']'

theorem lexes_closings (p : Position) (n : Nat) :
    ∃ ts, Text.Lexes p (closings n) ts ∧ ts.length = n ∧ ∀ t ∈ ts, t.isClose = true := by
  induction n generalizing p with
  | zero => exact ⟨[], .nil, rfl, by simp⟩
  | succ n ih =>
    obtain ⟨ts, hts, hlength, hclose⟩ := ih (p.advance ']')
    refine ⟨.of p [']'] :: ts, .bracket rfl hts, by simp [hlength], ?_⟩
    exact List.forall_mem_cons.mpr ⟨by cbv, hclose⟩

theorem startsFresh_of_isClose {ts : List Token} (h : ∀ t ∈ ts, t.isClose = true) :
    StartsFresh ts := by
  cases ts with
  | nil => exact startsFresh_nil
  | cons t ts => exact startsFresh_mark (.inr (.inl (h t List.mem_cons_self)))

/-- As many closing brackets as there are open loops end all of them. -/
theorem Draft.steps_closings (ts : List Token) (code : Array Instr) (opened : List OpenLoop)
    (hclose : ∀ t ∈ ts, t.isClose = true) (hlength : ts.length = opened.length) :
    ∃ code', Draft.Steps ⟨ts, code, opened⟩ ⟨[], code', []⟩ := by
  induction ts generalizing code opened with
  | nil =>
    obtain rfl : opened = [] := List.length_eq_zero_iff.mp hlength.symm
    exact ⟨code, .refl⟩
  | cons t ts ih =>
    obtain ⟨ht, hts⟩ := List.forall_mem_cons.mp hclose
    cases opened with
    | nil => cases hlength
    | cons o opened =>
      obtain ⟨code', hsteps⟩ := ih (code.modify o.index (.withLen (code.size - o.index - 1)))
        opened hts (Nat.succ.inj hlength)
      exact ⟨code', hsteps.head (Takes.close ht).step_eq⟩

/-- One more closing bracket ends a loop that only just begins. -/
theorem Draft.steps_empty_loop {t c b : Token} {us : List Token} {n : Nat}
    (hrepeat : t.text = repeatWord) (hcount : IsCount c.text n) (hopen : b.isOpen = true)
    (code : Array Instr) (opened : List OpenLoop) (hclose : ∀ t ∈ us, t.isClose = true)
    (hlength : us.length = opened.length + 1) :
    ∃ code', Draft.Steps ⟨t :: c :: b :: us, code, opened⟩ ⟨[], code', []⟩ := by
  have hhead : readLoopHead t (c :: b :: us) = .ok ⟨n, b, us⟩ :=
    readLoopHead_eq_ok.mpr ⟨c, rfl, hcount, hopen⟩
  obtain ⟨code', hsteps⟩ := Draft.steps_closings us (code.push (.loop n 0 t.span))
    (⟨code.size, b⟩ :: opened) hclose hlength
  exact ⟨code', hsteps.head (Draft.Takes.loop hrepeat hhead).step_eq⟩

/-- Tokens that are cut short can be completed, and so can the loops that are open there: by what is
missing of a loop with an empty block, and then by closing brackets. -/
theorem CutShort.exists_completion {ts : List Token} (h : CutShort ts) (opened : List OpenLoop) :
    ∃ more : List Char, ∀ (p : Position) (code : Array Instr), ∃ us code',
      Text.Lexes p more us ∧ (ts = [] → StartsFresh us) ∧
        Draft.Steps ⟨ts ++ us, code, opened⟩ ⟨[], code', []⟩ := by
  have hopen : ∀ p, (Text.Token.of p ['[']).isOpen = true := fun p => by cbv
  cases h with
  | nothing =>
    refine ⟨closings opened.length, fun p code => ?_⟩
    obtain ⟨us, hus, hlength, hclose⟩ := lexes_closings p opened.length
    obtain ⟨code', hsteps⟩ := Draft.steps_closings us code opened hclose hlength
    exact ⟨us, code', hus, fun _ => startsFresh_of_isClose hclose, hsteps⟩
  | @word t hrepeat =>
    refine ⟨'0' :: '[' :: closings (opened.length + 1), fun p code => ?_⟩
    obtain ⟨us, hus, hlength, hclose⟩ :=
      lexes_closings ((p.advance '0').advance '[') (opened.length + 1)
    have hlexes : Text.Lexes p ('0' :: ([] ++ '[' :: closings (opened.length + 1)))
        (.of p ['0'] :: .of (p.advance '0') ['['] :: us) :=
      .word rfl (by simp) (by rintro d ⟨⟩; rfl) (.bracket rfl hus)
    have hcount : IsCount (Text.Token.of p ['0']).text 0 := readCount?_eq_some.mp (by cbv)
    obtain ⟨code', hsteps⟩ := Draft.steps_empty_loop hrepeat hcount (hopen (p.advance '0')) code
      opened hclose hlength
    exact ⟨_, code', hlexes, by simp, hsteps⟩
  | @count t c n hrepeat hcount =>
    refine ⟨'[' :: closings (opened.length + 1), fun p code => ?_⟩
    obtain ⟨us, hus, hlength, hclose⟩ := lexes_closings (p.advance '[') (opened.length + 1)
    obtain ⟨code', hsteps⟩ := Draft.steps_empty_loop hrepeat hcount (hopen p) code opened hclose
      hlength
    exact ⟨_, code', .bracket rfl hus, by simp, hsteps⟩

/-! ## Longer texts -/

/-- The tokens of a text that goes on after a blank. -/
theorem tokens_append_blank (text more : String) :
    tokens (text ++ " " ++ more) =
      tokens text ++
        tokensAt ((Position.start.advanceOver text.toList).advance ' ') more.toList := by
  have htext : (text ++ " " ++ more).toList = text.toList ++ ' ' :: more.toList := by simp
  rw [Text.tokens_eq_tokensAt, htext, Text.tokensAt_append_blank (by decide)]
  rfl

/-- What was read of a sentence is kept, whatever follows. -/
theorem Sentence.code_prefix {ts rest : List Token} {b : Block} (h : Sentence ts b)
    (hrest : StartsFresh rest) :
    b.flatten <+: (Draft.start (ts ++ rest)).run.code.toList := by
  have hid : rest.map (·.mapSpan id) = rest := List.map_id rest
  rw [← hid] at hrest ⊢
  rw [h.run_append id hrest]
  exact ⟨_, (Array.toList_append ..).symm⟩

/-- What was read of a text with a fault is kept, whatever follows. -/
theorem code_prefix_of_fault {text : String} {p : Problem} (h : (Program.read text).fault = some p)
    (more : String) :
    (Program.read text).code.toList <+: (Program.read (text ++ " " ++ more)).code.toList := by
  obtain ⟨read, rest, b, htokens, hread, hcode, hfault, hcut⟩ := Draft.read_sentence (tokens text)
  obtain ⟨fault, hstops, -⟩ := Draft.exists_stops (Draft.start (tokens text))
  have hfresh : StartsFresh rest := by
    cases rest with
    | nil => exact startsFresh_nil
    | cons t rest =>
      -- the sentence ends where a loop begins that is still open, or where the reading stops
      have hcuts := hcut t rfl
      unfold Draft.CutsAt at hcuts
      split at hcuts
      · exact startsFresh_mark (.inr (.inr hcuts.1))
      · exact startsFresh_cons.mpr (hstops.startsFresh t hcuts)
  have hne : rest ≠ [] := by
    rintro rfl
    have hnone := hfault.mpr rfl
    rw [Program.read] at h
    rw [h] at hnone
    cases hnone
  rw [Program.read, hcode, Program.read, tokens_append_blank, htokens, List.append_assoc]
  exact hread.code_prefix (hfresh.append_of_nil fun hnil => absurd hnil hne)

/-- Some continuation of the text has no fault. -/
def Incomplete (text : String) : Prop :=
  ∃ more, (Program.read (text ++ " " ++ more)).fault = none

/-- Every continuation of the text is the same program, with the same fault. -/
def Final (text : String) : Prop :=
  ∀ more, Program.read (text ++ " " ++ more) = Program.read text

/-- The draft at which the reading of a text stops, and why. -/
theorem exists_stops_of_fault {text : String} {p : Problem}
    (h : (Program.read text).fault = some p) :
    ∃ d, Draft.Steps (Draft.start (tokens text)) d ∧ Draft.Stops d (some p) ∧
      Program.read text = d.finish (some p) := by
  obtain ⟨fault, hstops, hrun⟩ := Draft.exists_stops (Draft.start (tokens text))
  rw [Program.read, hrun, Draft.finish_fault] at h
  rw [h] at hstops hrun
  exact ⟨_, Draft.steps_last _, hstops, hrun⟩

theorem incomplete_of_cutShort {text : String} {d : Draft}
    (hsteps : Draft.Steps (Draft.start (tokens text)) d) (hcut : CutShort d.rest) :
    Incomplete text := by
  obtain ⟨more, hmore⟩ := hcut.exists_completion d.opened
  obtain ⟨us, code', hlexes, hfresh, hrest⟩ :=
    hmore ((Position.start.advanceOver text.toList).advance ' ') d.code
  refine ⟨String.ofList more, ?_⟩
  have hall : Draft.Steps ((Draft.start (tokens text)).extend us) ⟨[], code', []⟩ :=
    (hsteps.extend hfresh).trans hrest
  have hstop : (⟨[], code', []⟩ : Draft).step = .inr ⟨code', none⟩ := rfl
  have hrun : (Draft.start (tokens text ++ us)).run = ⟨code', none⟩ := by
    rw [← Draft.run_of_inr hstop]
    exact hall.run_eq
  rw [Program.read, tokens_append_blank, String.toList_ofList, hlexes.tokensAt_eq, hrun]

theorem final_of_not_cutShort {text : String} {d : Draft} {p : Problem}
    (hsteps : Draft.Steps (Draft.start (tokens text)) d) (hstops : Draft.Stops d (some p))
    (hread : Program.read text = d.finish (some p)) (hcut : ¬ CutShort d.rest) : Final text := by
  intro more
  have hne : d.rest ≠ [] := fun hnil => hcut (hnil ▸ .nothing)
  rw [hread, Program.read, tokens_append_blank]
  generalize tokensAt _ more.toList = us
  have hall : Draft.Steps (Draft.start (tokens text ++ us)) (d.extend us) :=
    hsteps.extend fun hnil => absurd hnil hne
  rw [hall.run_eq, Draft.run_of_inr (hstops.extend hcut us).step_eq]
  -- the fault is reported with the code that was there before
  rfl

/-! ## Faults at the end -/

/-- The problem is that the tokens have ended: in a loop, right after a `REPEAT`, or right after the
count of a loop. -/
inductive RanOut (ts : List Token) : Problem → Prop where
  | inLoop {span} : RanOut ts (.malformed .unmatchedOpen span)
  | afterRepeat {before t} : ts = before ++ [t] → t.text = repeatWord →
      RanOut ts (.malformed .missingCount t.span)
  | afterCount {before t c n} : ts = before ++ [t, c] → t.text = repeatWord → IsCount c.text n →
      RanOut ts (.malformed .missingBody c.span)

/-- A token in the place of the last one is the last one. -/
theorem eq_nil_of_span_eq_last {ts before before' rest : List Token} {t t' : Token}
    (horder : ts.Pairwise (·.span.offset < ·.span.offset)) (h : ts = before ++ t :: rest)
    (h' : ts = before' ++ [t']) (hspan : t.span = t'.span) : rest = [] := by
  by_contra hne
  have hlast : ts.getLast? = some t' := by rw [h', List.getLast?_concat]
  rw [h, List.getLast?_append_cons, List.getLast?_cons_of_ne_nil hne] at hlast
  rw [h] at horder
  have hlt := (List.pairwise_cons.mp (List.pairwise_append.mp horder).2.1).1 t'
    (List.mem_of_getLast? hlast)
  rw [hspan] at hlt
  exact Nat.lt_irrefl _ hlt

theorem not_isCount_repeatWord {n : Nat} : ¬ IsCount repeatWord n := by
  intro h
  have hnone : readCount? repeatWord = none := by cbv
  rw [readCount?_eq_some.mpr h] at hnone
  cases hnone

/-- A token that offends where the tokens are cut short is where they have run out. -/
theorem Offends.ranOut {ts before rest : List Token} {t : Token} {p : Problem}
    (h : Offends t rest p) (hcut : CutShort (t :: rest)) (hts : ts = before ++ t :: rest) :
    RanOut ts p := by
  cases hcut with
  | word hrepeat =>
    cases h with
    | noCount => exact .afterRepeat hts hrepeat
    | unasked hopen => simp [Token.isOpen_iff.mp hopen, repeatWord] at hrepeat
  | count hrepeat hcount =>
    cases h with
    | bracketForCount hrepeat hbracket =>
      obtain ⟨h₁, h₂⟩ := hcount.not_bracket
      simp [h₁, h₂] at hbracket
    | badCount hrepeat hbracket hnone => simp [readCount?_eq_some.mpr hcount] at hnone
    | noBody => exact .afterCount hts hrepeat hcount
    | unasked hopen => simp [Token.isOpen_iff.mp hopen, repeatWord] at hrepeat

/-- A token that offends although the tokens are not cut short is not where they have run out. -/
theorem Offends.not_ranOut {ts before rest : List Token} {t : Token} {p : Problem}
    (h : Offends t rest p) (hcut : ¬ CutShort (t :: rest))
    (horder : ts.Pairwise (·.span.offset < ·.span.offset)) (hts : ts = before ++ t :: rest) :
    ¬ RanOut ts p := by
  intro hran
  generalize hp : p = p' at hran
  cases h with
  | noCount hrepeat => exact hcut (.word hrepeat)
  | bracketForCount hrepeat hbracket =>
    cases hran with
    | inLoop => cases hp
    | afterCount => cases hp
    | afterRepeat hlast =>
      simp only [Problem.malformed.injEq, true_and] at hp
      cases eq_nil_of_span_eq_last horder hts hlast hp
  | badCount => cases hran <;> cases hp
  | noBody hrepeat hcount => exact hcut (.count hrepeat hcount)
  | @otherForBody c n b rest hrepeat hcount hopen =>
    cases hran with
    | inLoop => cases hp
    | afterRepeat => cases hp
    | @afterCount before' t' c' n' hlast hrepeat' hcount' =>
      simp only [Problem.malformed.injEq, true_and] at hp
      have hts' : ts = (before ++ [t, c]) ++ b :: rest := by simp [hts]
      have hlast' : ts = (before' ++ [t']) ++ [c'] := by simp [hlast]
      obtain rfl := eq_nil_of_span_eq_last horder hts' hlast' hp
      -- the count of the one would be the `REPEAT` of the other
      have heq : (before ++ [t]) ++ [c, b] = before' ++ [t', c'] := by simp [← hts, ← hlast]
      obtain ⟨rfl, -⟩ : c = t' ∧ b = c' := by simpa using List.append_inj_right' heq rfl
      exact not_isCount_repeatWord (hrepeat' ▸ hcount)
  | unasked => cases hran <;> cases hp

/-- Which faults are those of texts that are cut short. -/
theorem ranOut_iff_cutShort {text : String} {d : Draft} {p : Problem}
    (hsteps : Draft.Steps (Draft.start (tokens text)) d) (hstops : Draft.Stops d (some p)) :
    RanOut (tokens text) p ↔ CutShort d.rest := by
  have horder := (Text.lexes_tokensAt .start text.toList).offsets
  rw [← Text.tokens_eq_tokensAt] at horder
  obtain ⟨before, htokens⟩ : d.rest <:+ tokens text := hsteps.rest_suffix
  constructor
  · intro hran
    by_contra hcut
    generalize hfault : some p = fault at hstops
    cases hstops with
    | ended hrest => exact hcut (hrest ▸ .nothing)
    | unmatched hrest =>
      cases hfault
      cases hran
    | broken hrest hbreaks =>
      obtain rfl := Option.some_inj.mp hfault
      rw [hrest] at hcut htokens
      exact (breaks_iff_offends.mp hbreaks).not_ranOut hcut horder htokens.symm hran
  · intro hcut
    generalize hfault : some p = fault at hstops
    cases hstops with
    | ended =>
      obtain ⟨o, -, rfl⟩ := Option.map_eq_some_iff.mp hfault.symm
      exact .inLoop
    | @unmatched t rest hrest hclose =>
      -- a closing bracket is no `REPEAT`
      rw [hrest] at hcut
      have htext := Token.isClose_iff.mp hclose
      cases hcut with
      | word hrepeat => simp [htext, repeatWord] at hrepeat
      | count hrepeat => simp [htext, repeatWord] at hrepeat
    | broken hrest hbreaks =>
      obtain rfl := Option.some_inj.mp hfault
      rw [hrest] at hcut htokens
      exact (breaks_iff_offends.mp hbreaks).ranOut hcut htokens.symm

/-- A fault says of a text either that it is the beginning of a text without a fault, or that
nothing after it matters: the first if the tokens have run out, which they have not after a count that is
none and after a bracket that nothing asks for. What was read is kept either way. -/
theorem fault_incomplete_or_final (text : String) (p : Problem)
    (h : (Program.read text).fault = some p) :
    Xor (Incomplete text) (Final text) ∧
    (Incomplete text ↔ RanOut (tokens text) p) ∧
    ((∃ count span, p = .malformed (.badCount count) span) ∨
        (∃ span, p = .malformed .unmatchedClose span) ∨
        (∃ span, p = .malformed .unexpectedOpen span) → Final text) ∧
    ∀ more, (Program.read text).code.toList <+:
      (Program.read (text ++ " " ++ more)).code.toList := by
  obtain ⟨d, hsteps, hstops, hread⟩ := exists_stops_of_fault h
  have hran := ranOut_iff_cutShort hsteps hstops
  have hexclusive : Incomplete text → ¬ Final text := by
    rintro ⟨more, hnone⟩ hfinal
    rw [hfinal more, h] at hnone
    cases hnone
  have hincomplete : Incomplete text ↔ CutShort d.rest := by
    refine ⟨fun hinc => ?_, incomplete_of_cutShort hsteps⟩
    by_contra hcut
    exact hexclusive hinc (final_of_not_cutShort hsteps hstops hread hcut)
  have hfinal : Final text ↔ ¬ CutShort d.rest :=
    ⟨fun hfin hcut => hexclusive (incomplete_of_cutShort hsteps hcut) hfin,
      final_of_not_cutShort hsteps hstops hread⟩
  refine ⟨?_, hincomplete.trans hran.symm, ?_, code_prefix_of_fault h⟩
  · rw [hincomplete, hfinal]
    exact xor_not_right.mpr Iff.rfl
  · rintro (⟨count, span, rfl⟩ | ⟨span, rfl⟩ | ⟨span, rfl⟩)
    all_goals
      rw [hfinal, ← hran]
      rintro ⟨⟩

/-- A missing count is either: the first text may go on with one, the second may not. -/
theorem fault_incomplete_or_final_missingCount :
    (Program.read "repeat 2 [cs repeat").fault =
        some (.malformed .missingCount ⟨13, 6, 1, 14⟩) ∧
      Incomplete "repeat 2 [cs repeat" ∧
      (Program.read "cs repeat [cs").fault = some (.malformed .missingCount ⟨3, 6, 1, 4⟩) ∧
      Final "cs repeat [cs" := by
  have hfault : (Program.read "repeat 2 [cs repeat").fault =
      some (.malformed .missingCount ⟨13, 6, 1, 14⟩) := by cbv
  have htokens : tokens "repeat 2 [cs repeat" =
      [⟨"REPEAT", ⟨0, 6, 1, 1⟩⟩, ⟨"2", ⟨7, 1, 1, 8⟩⟩, ⟨"[", ⟨9, 1, 1, 10⟩⟩,
        ⟨"CS", ⟨10, 2, 1, 11⟩⟩] ++ [⟨"REPEAT", ⟨13, 6, 1, 14⟩⟩] := by cbv
  have hfault' : (Program.read "cs repeat [cs").fault =
      some (.malformed .missingCount ⟨3, 6, 1, 4⟩) := by cbv
  have htokens' : tokens "cs repeat [cs" =
      [⟨"CS", ⟨0, 2, 1, 1⟩⟩, ⟨"REPEAT", ⟨3, 6, 1, 4⟩⟩, ⟨"[", ⟨10, 1, 1, 11⟩⟩] ++
        [⟨"CS", ⟨11, 2, 1, 12⟩⟩] := by cbv
  obtain ⟨-, hincomplete, -, -⟩ := fault_incomplete_or_final _ _ hfault
  obtain ⟨heither, hincomplete', -, -⟩ := fault_incomplete_or_final _ _ hfault'
  have hnot : ¬ Incomplete "cs repeat [cs" := by
    rw [hincomplete', htokens']
    intro hran
    generalize hp : Problem.malformed .missingCount ⟨3, 6, 1, 4⟩ = p at hran
    cases hran with
    | inLoop => cases hp
    | afterCount => cases hp
    | afterRepeat hlast hrepeat =>
      -- the text does not end with a `REPEAT`
      obtain rfl := List.singleton_inj.mp (List.append_inj_right' hlast rfl)
      exact absurd hrepeat (by decide)
  exact ⟨hfault, hincomplete.mpr (.afterRepeat htokens rfl), hfault',
    (heither.resolve_left fun hboth => hnot hboth.1).1⟩

end TurtleGraphics
