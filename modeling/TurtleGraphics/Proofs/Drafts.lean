import TurtleGraphics.Proofs.Partition
import TurtleGraphics.Proofs.Reading

namespace TurtleGraphics

open Text (Token tokens)

/-! # Programs half read

While a program is read, its list holds loops whose blocks have ended beside loops whose length is
not known yet. Here is what such a list looks like between any two iterations of the reading.

* `Layered`: tokens, open loops and code that belong together. Outside all open loops stands a
  block, and each open loop is followed by the block that was read in it so far. This is the
  invariant (`Draft.Takes.layered`), and everything below is read off it.
* `Draft.Orderly`: the order that it keeps among the open loops and among the closed ones.
* `Draft.restAfter`: where the reading stands after an iteration, the last one included.
* `Draft.After`: the drafts at which the iterations begin.

`reading_stays_orderly` is the consequence for texts.
-/

/-! ## Layers -/

/-- The tokens `read` have been read, and what was made of them is the code with these loops open,
innermost first. -/
inductive Layered : List Token → List OpenLoop → Array Instr → Prop where
  /-- No loop is open. -/
  | outside (read : List Token) (b : Block) : Layered read [] b.flatten.toArray
  /-- One more loop begins, and a block has been read in it. -/
  | inside {read opened code start count bracket n} (inner : List Token) (b : Block) :
      Layered read opened code → start.text = repeatWord → IsCount count.text n →
      bracket.isOpen = true →
      Layered (read ++ start :: count :: bracket :: inner) (⟨code.size, bracket⟩ :: opened)
        (code ++ (.loop n 0 start.span :: b.flatten).toArray)

/-- The loop is in the code without its length, and its bracket belongs to a loop's head among the
tokens `read`. -/
def OpenLoop.Unfilled (o : OpenLoop) (read : List Token) (code : Array Instr) : Prop :=
  ∃ before start count after n, read = before ++ start :: count :: o.bracket :: after ∧
    start.text = repeatWord ∧ IsCount count.text n ∧ o.bracket.isOpen = true ∧
    code[o.index]? = some (.loop n 0 start.span)

theorem OpenLoop.Unfilled.index_lt {o : OpenLoop} {read : List Token} {code : Array Instr}
    (h : o.Unfilled read code) : o.index < code.size := by
  obtain ⟨_, _, _, _, _, -, -, -, -, hloop⟩ := h
  exact (Array.getElem?_eq_some_iff.mp hloop).1

theorem OpenLoop.Unfilled.append {o : OpenLoop} {read : List Token} {code : Array Instr}
    (h : o.Unfilled read code) (more : List Token) (extra : Array Instr) :
    o.Unfilled (read ++ more) (code ++ extra) := by
  have hlt := h.index_lt
  obtain ⟨before, start, count, after, n, rfl, hrepeat, hcount, hopen, hloop⟩ := h
  refine ⟨before, start, count, after ++ more, n, by simp, hrepeat, hcount, hopen, ?_⟩
  rw [Array.getElem?_append_left hlt, hloop]

namespace Layered

variable {read : List Token} {opened : List OpenLoop} {code : Array Instr}

/-- What is read without opening or closing a loop goes into the innermost block. -/
theorem add (h : Layered read opened code) (more : List Token) (b : Block) :
    Layered (read ++ more) opened (code ++ b.flatten.toArray) := by
  cases h with
  | outside _ b₀ =>
    have happend : b₀.flatten.toArray ++ b.flatten.toArray = (b₀.append b).flatten.toArray := by
      simp
    rw [happend]
    exact .outside _ _
  | @inside read opened code start count bracket n inner b₀ hlayered hrepeat hcount hopen =>
    have := Layered.inside (inner ++ more) (b₀.append b) hlayered hrepeat hcount hopen
    simpa using this

/-- The innermost open loop ends, and with its length filled in it goes into the block around it. -/
theorem close {o : OpenLoop} (h : Layered read (o :: opened) code) (t : Token) :
    Layered (read ++ [t]) opened (code.modify o.index (.withLen (code.size - o.index - 1))) := by
  cases h with
  | @inside read _ code start count bracket n inner b hlayered hrepeat hcount hopen =>
    have hlen : (code ++ (Instr.loop n 0 start.span :: b.flatten).toArray).size - code.size - 1 =
        b.flatten.length := by
      simp
    rw [hlen, modify_size, Instr.withLen]
    have := hlayered.add (start :: count :: bracket :: (inner ++ [t]))
      (.loop n start.span b .done)
    simpa [Block.flatten] using this

theorem unfilled (h : Layered read opened code) : ∀ o ∈ opened, o.Unfilled read code := by
  induction h with
  | outside => simp
  | @inside read opened code start count bracket n inner b _ hrepeat hcount hopen ih =>
    rw [List.forall_mem_cons]
    constructor
    · exact ⟨read, start, count, inner, n, rfl, hrepeat, hcount, hopen, by simp⟩
    · intro o ho
      exact (ih o ho).append _ _

/-- The further out an open loop is, the further ahead it stands in the code. -/
theorem index_lt (h : Layered read opened code) :
    opened.Pairwise fun inner outer => outer.index < inner.index := by
  induction h with
  | outside => exact .nil
  | inside inner b hlayered _ _ _ ih =>
    refine .cons ?_ ih
    intro o ho
    exact (hlayered.unfilled o ho).index_lt

/-- From the outermost open loop inwards, the brackets stand among the tokens in this order. -/
theorem brackets (h : Layered read opened code) :
    (opened.reverse.map (·.bracket)).Sublist read := by
  induction h with
  | outside => exact List.nil_sublist _
  | @inside read opened code start count bracket n inner b _ _ _ _ ih =>
    have hbracket : [bracket].Sublist (start :: count :: bracket :: inner) :=
      List.singleton_sublist.mpr (by simp)
    simpa using ih.append hbracket

/-- A loop that is open has no length yet, so it reaches no further than itself. -/
theorem nested (h : Layered read opened code) : Nested code.toList := by
  induction h with
  | outside read b => exact b.nested_flatten
  | @inside read opened code start count bracket n inner b _ _ _ _ ih =>
    have hopened : Nested [.loop n 0 start.span] := Nested.nil.loop n start.span
    have := ih.append (hopened.append b.nested_flatten)
    simpa using this

/-- No loop reaches over one that is open. -/
theorem bodyEnd?_le (h : Layered read opened code) {o : OpenLoop} (ho : o ∈ opened) {i e : Nat}
    (hi : bodyEnd? code.toList i = some e) (hlt : i < o.index) : e ≤ o.index := by
  induction h with
  | outside => cases ho
  | @inside read opened code start count bracket n inner b hlayered _ _ _ ih =>
    -- the loop at `i` begins before the new one, so it was there before
    have hindex : o.index ≤ code.size := by
      rcases List.mem_cons.mp ho with rfl | ho
      · exact Nat.le_refl _
      · exact ((hlayered.unfilled o ho).index_lt).le
    have hi' : bodyEnd? code.toList i = some e := by
      rw [Array.toList_append, bodyEnd?_append_left (by rw [Array.length_toList]; omega)] at hi
      exact hi
    rcases List.mem_cons.mp ho with rfl | ho
    · exact hlayered.nested.le_length i e hi'
    · exact ih ho hi'

end Layered

/-! ## Order among loops -/

/-- Of two loops one is inside the other, or they have nothing in common. -/
theorem Nested.laminar {code : List Instr} (h : Nested code) {i e j e' : Nat}
    (hi : bodyEnd? code i = some e) (hj : bodyEnd? code j = some e') :
    Set.Ico (j + 1) e' ⊆ Set.Ico (i + 1) e ∨ Set.Ico (i + 1) e ⊆ Set.Ico (j + 1) e' ∨
      Disjoint (Set.Ico (i + 1) e) (Set.Ico (j + 1) e') := by
  -- what holds of a loop and a later one is enough
  have hlater : ∀ {i e j e'}, bodyEnd? code i = some e → bodyEnd? code j = some e' → i < j →
      Set.Ico (j + 1) e' ⊆ Set.Ico (i + 1) e ∨
        Disjoint (Set.Ico (i + 1) e) (Set.Ico (j + 1) e') := by
    intro i e j e' hi hj hij
    rcases Nat.lt_or_ge j e with hje | hje
    · have hle := h.le_outer i e j e' hi hj hij hje
      exact .inl (Set.Ico_subset_Ico (by omega) hle)
    · refine .inr (Set.Ico_disjoint_Ico.mpr ?_)
      omega
  rcases Nat.lt_trichotomy i j with hij | rfl | hij
  · exact (hlater hi hj hij).imp_right .inr
  · rw [hi] at hj
    obtain rfl := Option.some.inj hj
    exact .inl (Set.Subset.refl _)
  · rcases hlater hj hi hij with hsub | hdisjoint
    · exact .inr (.inl hsub)
    · exact .inr (.inr hdisjoint.symm)

namespace Draft

/-- The loop at the place `i` is no longer open, and its body goes up to `e`. -/
def Closed (d : Draft) (i e : Nat) : Prop :=
  bodyEnd? d.code.toList i = some e ∧ ∀ o ∈ d.opened, o.index ≠ i

/-- The order among the loops of a draft. The body of a closed loop at `i` takes up the places from
`i + 1` up to its end. -/
structure Orderly (text : String) (d : Draft) : Prop where
  /-- From the outermost open loop inwards, the places in the code increase. -/
  indices : (d.opened.reverse.map (·.index)).Pairwise (· < ·)
  /-- At each of these places is a loop without its length, and its bracket stands in its head. -/
  unfilled : ∀ o ∈ d.opened, o.Unfilled (tokens text) d.code
  /-- From the outermost open loop inwards, the brackets are in the order of the text. -/
  brackets : (d.opened.reverse.map (·.bracket)).Pairwise (·.span.offset < ·.span.offset)
  closed_within : ∀ i e, d.Closed i e → e ≤ d.code.size
  closed_laminar : ∀ i e j e', d.Closed i e → d.Closed j e' →
    Set.Ico (j + 1) e' ⊆ Set.Ico (i + 1) e ∨ Set.Ico (i + 1) e ⊆ Set.Ico (j + 1) e' ∨
      Disjoint (Set.Ico (i + 1) e) (Set.Ico (j + 1) e')
  closed_clear : ∀ i e, d.Closed i e → ∀ o ∈ d.opened, o.index ∉ Set.Ico (i + 1) e

theorem orderly_of_layered {text : String} {d : Draft} {read : List Token}
    (hread : tokens text = read ++ d.rest) (h : Layered read d.opened d.code) :
    d.Orderly text where
  indices := by
    rw [List.map_reverse, List.pairwise_reverse]
    exact h.index_lt.map _ fun _ _ hlt => hlt
  unfilled := by
    intro o ho
    rw [hread]
    simpa using (h.unfilled o ho).append d.rest #[]
  brackets := by
    have hsublist : (d.opened.reverse.map (·.bracket)).Sublist (tokens text) := by
      rw [hread]
      exact h.brackets.trans (List.sublist_append_left read d.rest)
    exact (Text.partition_tokens text).offsets.sublist hsublist
  closed_within := by
    intro i e hi
    simpa using h.nested.le_length i e hi.1
  closed_laminar := by
    intro i e j e' hi hj
    exact h.nested.laminar hi.1 hj.1
  closed_clear := by
    intro i e hi o ho hmem
    have hle := h.bodyEnd?_le ho hi.1 hmem.1
    exact absurd hmem.2 (Nat.not_lt.mpr hle)

/-! ## One iteration -/

/-- An iteration that goes on reads some tokens and keeps the layers. -/
theorem Takes.layered {d d' : Draft} (h : Takes d d') {read : List Token}
    (hlayered : Layered read d.opened d.code) :
    ∃ taken, d.rest = taken ++ d'.rest ∧ taken ≠ [] ∧
      Layered (read ++ taken) d'.opened d'.code := by
  cases h with
  | @close t rest code o opened hclose => exact ⟨[t], rfl, by simp, hlayered.close t⟩
  | @loop t rest code opened head hrepeat hhead =>
    obtain ⟨count, rfl, hcount, hopen⟩ := readLoopHead_eq_ok.mp hhead
    refine ⟨[t, count, head.bracket], rfl, by simp, ?_⟩
    simpa [Block.flatten] using hlayered.inside [] .done hrepeat hcount hopen
  | @statement t rest code opened s rest' hclose hrepeat hs =>
    obtain ⟨run, rfl, -⟩ := (readStatement_eq_ok hclose hrepeat).mp hs
    refine ⟨t :: run, rfl, by simp, ?_⟩
    simpa [Block.flatten] using hlayered.add (t :: run) (.statement s .done)

end Draft

/-- What is left of some tokens when a loop's head has been looked for at their beginning. A token
that is no count is left there; after a count one token is taken, whether it is a bracket or not. -/
def afterLoopHead : List Token → List Token
  | [] => []
  | t :: rest =>
    if t.isOpen || t.isClose || (readCount? t.text).isNone then t :: rest else rest.drop 1

theorem afterLoopHead_suffix (ts : List Token) : afterLoopHead ts <:+ ts := by
  cases ts with
  | nil => exact List.suffix_refl _
  | cons t rest =>
    rw [afterLoopHead]
    split
    · exact List.suffix_refl _
    · exact (List.drop_suffix 1 rest).trans (List.suffix_cons t rest)

theorem readLoopHead_rest {start : Token} {ts : List Token} {head : LoopHead}
    (h : readLoopHead start ts = .ok head) : head.rest = afterLoopHead ts := by
  obtain ⟨count, rfl, hcount, -⟩ := readLoopHead_eq_ok.mp h
  obtain ⟨hopen, hclose⟩ := hcount.not_bracket
  simp [afterLoopHead, hopen, hclose, readCount?_eq_some.mpr hcount]

namespace Draft

/-- What is left of the tokens after one more iteration, also if it is the last one. -/
def restAfter (d : Draft) : List Token :=
  match d.rest with
  | [] => []
  | t :: rest =>
    if t.isClose then rest
    else if t.text = repeatWord then afterLoopHead rest
    else match readStatement t rest with
      | .ok (_, rest) => rest
      | .error _ => rest

theorem Takes.rest_eq {d d' : Draft} (h : Takes d d') : d'.rest = d.restAfter := by
  cases h with
  | close hclose => simp [restAfter, hclose]
  | loop hrepeat hhead =>
    simp [restAfter, isClose_of_repeat hrepeat, hrepeat, readLoopHead_rest hhead]
  | statement hclose hrepeat hs => simp [restAfter, hclose, hrepeat, hs]

/-- Every iteration takes the token that it begins with. -/
theorem restAfter_suffix {d : Draft} {t : Token} {rest : List Token} (h : d.rest = t :: rest) :
    d.restAfter <:+ rest := by
  rw [restAfter, h]
  dsimp only
  split
  · exact List.suffix_refl _
  rename_i hclose
  split
  · exact afterLoopHead_suffix rest
  rename_i hrepeat
  split
  · rename_i s rest' hs
    obtain ⟨run, rfl, -⟩ := (readStatement_eq_ok (by simpa using hclose) hrepeat).mp hs
    exact List.suffix_append run rest'
  · exact List.suffix_refl _

/-- The iteration at `d` goes from one place among the tokens `ts` to another. It goes further,
unless no token is left. -/
structure Advances (ts : List Token) (d : Draft) (place place' : Nat) : Prop where
  rest_eq : d.rest = ts.drop place
  restAfter_eq : d.restAfter = ts.drop place'
  le_length : place' ≤ ts.length
  grows : place < place' ∨ place = place' ∧ d.rest = []

theorem exists_advances {d : Draft} {read ts : List Token} (h : ts = read ++ d.rest) :
    ∃ place', d.Advances ts read.length place' := by
  have hrest : d.rest = ts.drop read.length := by
    rw [h, List.drop_left]
  cases hd : d.rest with
  | nil =>
    have hafter : d.restAfter = [] := by
      rw [restAfter, hd]
    refine ⟨read.length, hrest, ?_, by simp [h], .inr ⟨rfl, hd⟩⟩
    rw [hafter, ← hrest, hd]
  | cons t rest =>
    obtain ⟨taken, htaken⟩ := restAfter_suffix hd
    have hts : ts = (read ++ t :: taken) ++ d.restAfter := by
      simp [h, hd, htaken]
    refine ⟨(read ++ t :: taken).length, hrest, ?_, ?_, .inl (by simp)⟩
    · conv_rhs => rw [hts, List.drop_left]
    · conv_rhs => rw [hts]
      simp

/-! ## All iterations -/

/-- The reading of the tokens `ts` comes to the draft `d` after `n` iterations. -/
inductive After (ts : List Token) : Nat → Draft → Prop where
  | start : After ts 0 (.start ts)
  | next {n d d'} : After ts n d → d.step = .inl d' → After ts (n + 1) d'

variable {ts : List Token} {n : Nat} {d : Draft}

theorem After.layered (h : After ts n d) :
    ∃ read, ts = read ++ d.rest ∧ n ≤ read.length ∧ Layered read d.opened d.code := by
  induction h with
  | start => exact ⟨[], rfl, Nat.le_refl _, .outside [] .done⟩
  | @next n d d' _ hstep ih =>
    obtain ⟨read, rfl, hn, hlayered⟩ := ih
    obtain ⟨taken, htaken, hne, hlayered'⟩ := (step_eq_inl.mp hstep).layered hlayered
    refine ⟨read ++ taken, by rw [htaken, List.append_assoc], ?_, hlayered'⟩
    have := List.length_pos_iff.mpr hne
    rw [List.length_append]
    omega

/-- The iterations come to an end, and what is read is what there is then. -/
theorem After.exists_stops (h : After ts n d) :
    ∃ m d' fault, After ts m d' ∧ Stops d' fault ∧ d.run = d'.finish fault := by
  fun_induction run d generalizing n with
  | case1 d d' hstep _ ih => exact ih (h.next hstep)
  | case2 d p hstep =>
    obtain ⟨fault, hstops, rfl⟩ := step_eq_inr.mp hstep
    exact ⟨n, d, fault, h, hstops, rfl⟩

end Draft

/-- Between any two iterations of the reading of a text, the loops of the draft are in order: the
open ones in the code as in the text, and the closed ones inside one another or apart, with no open
one in them. So the loop that a closing bracket ends is always there, with room behind it. Every
iteration takes a token, unless none is left, and none goes past the end. So after at most as many
iterations as there are tokens comes the last one, which leaves the draft as it is. -/
theorem reading_stays_orderly (text : String) :
    (∀ n d, Draft.After (tokens text) n d →
      d.Orderly text ∧
      (∀ o ∈ d.opened, o.index + 1 ≤ d.code.size) ∧
      (∃ place place', n ≤ place ∧ d.Advances (tokens text) place place') ∧
      ∀ d', d.step = .inl d' → d'.rest = d.restAfter) ∧
    ∃ n d fault, Draft.After (tokens text) n d ∧ n ≤ (tokens text).length ∧
      d.step = .inr (d.finish fault) ∧ Program.read text = d.finish fault := by
  constructor
  · intro n d h
    obtain ⟨read, hread, hn, hlayered⟩ := h.layered
    obtain ⟨place', hadvances⟩ := Draft.exists_advances hread
    refine ⟨Draft.orderly_of_layered hread hlayered, ?_, ⟨read.length, place', hn, hadvances⟩, ?_⟩
    · intro o ho
      exact (hlayered.unfilled o ho).index_lt
    · intro d' hstep
      exact (Draft.step_eq_inl.mp hstep).rest_eq
  · have hstart : Draft.After (tokens text) 0 (.start (tokens text)) := .start
    obtain ⟨n, d, fault, h, hstops, hrun⟩ := hstart.exists_stops
    obtain ⟨read, hread, hn, -⟩ := h.layered
    refine ⟨n, d, fault, h, ?_, hstops.step_eq, hrun⟩
    rw [hread, List.length_append]
    omega

end TurtleGraphics
