import TurtleGraphics.Proofs.Looping

namespace TurtleGraphics

/-! # Passes within passes

Where the counter can be while a program is carried out, and which passes can be under way there.

* `Block.depth`, `Block.moves`: how deep the loops of a block are nested, and how many moves the
  counter makes over it.
* `Control.Stacked`: passes under way, each within the one before it. This and the place of the
  counter are the invariant (`Control.OnTrack`, `Control.Move.onTrack`).
* `Control.plainStep`: a step by a simpler rule, which makes do with the test whether the counter is
  at the end of the pass. Where the invariant holds it is no different (`OnTrack.plainStep_eq`).
* `Control.remaining_start`: the moves that are left at the start are those of the whole block.
* `Control.After`: where the control is after so many steps.

`counter_stays_in_place` is the consequence for the programs of texts.
-/

namespace Block

/-- How many loops are around each other at most. -/
def depth : Block → Nat
  | .done => 0
  | .statement _ next => next.depth
  | .loop _ _ body next => max (body.depth + 1) next.depth

/-- How many moves it takes from the beginning of the block to its end. A loop takes one to be
entered or skipped, and each of its passes takes one more to be over. -/
def moves : Block → Nat
  | .done => 0
  | .statement _ next => 1 + next.moves
  | .loop count _ body next => 1 + count * (body.moves + 1) + next.moves

/-- After a loop comes its body, which is less deep than what the loop is in. -/
theorem exists_body {b : Block} {before after : List Instr} {count len : Nat} {span : Text.Span}
    (h : b.flatten = before ++ .loop count len span :: after) :
    ∃ body : Block, ∃ rest, after = body.flatten ++ rest ∧ body.flatten.length = len ∧
      body.depth < b.depth := by
  induction b generalizing before after with
  | done => simp [flatten] at h
  | statement s next ih =>
    rw [flatten, List.cons_eq_append_iff] at h
    rcases h with ⟨-, h⟩ | ⟨before, -, h⟩
    · simp at h
    · exact ih h
  | loop count' span' body next ihbody ihnext =>
    have hnext : next.depth ≤ (Block.loop count' span' body next).depth := Nat.le_max_right _ _
    have hbody : body.depth < (Block.loop count' span' body next).depth := Nat.le_max_left _ _
    rw [flatten, List.cons_eq_append_iff] at h
    rcases h with ⟨-, h⟩ | ⟨before, -, h⟩
    · -- it is the first loop of the block
      simp only [List.cons.injEq, Instr.loop.injEq] at h
      obtain ⟨⟨-, rfl, -⟩, rfl⟩ := h
      exact ⟨body, next.flatten, rfl, rfl, hbody⟩
    · rcases List.append_eq_append_iff.mp h with ⟨before', -, h⟩ | ⟨inside, hinside, h⟩
      · -- it is one of those that come later
        obtain ⟨body', rest, hafter, hlen, hdepth⟩ := ihnext h
        exact ⟨body', rest, hafter, hlen, by omega⟩
      · rcases List.cons_eq_append_iff.mp h with ⟨-, h⟩ | ⟨inside, rfl, rfl⟩
        · have hfirst : next.flatten = [] ++ .loop count len span :: after := h
          obtain ⟨body', rest, hafter, hlen, hdepth⟩ := ihnext hfirst
          exact ⟨body', rest, hafter, hlen, by omega⟩
        · -- it is one of those in the body
          obtain ⟨body', rest, rfl, hlen, hdepth⟩ := ihbody hinside
          exact ⟨body', rest ++ next.flatten, by simp, hlen, by omega⟩

end Block

namespace Control

variable {code : Array Instr}

/-! ## Passes under way -/

/-- The pass goes through the block: the block stands in the code from the pass's start to its
end. -/
structure Covers (code : Array Instr) (p : Pass) (b : Block) : Prop where
  stands : StandsAt code p.start b.flatten
  stop_eq : p.stop = p.start + b.flatten.length

/-- Passes under way when `whole` is the code, the innermost of them through the block `b`. -/
inductive Stacked (code : Array Instr) (whole : Block) : List Pass → Block → Prop where
  | outermost : Stacked code whole [⟨0, code.size, 0⟩] whole
  /-- The pass goes through the body of a loop that the pass around it has come upon. -/
  | within {p q outer b body} : Stacked code whole (q :: outer) b → Covers code p body →
      body.depth < b.depth → q.start ≤ p.start → p.stop ≤ q.stop →
      Stacked code whole (p :: q :: outer) body

/-- The counter is in the innermost of the passes under way, or at its end, or all is over. -/
inductive OnTrack (code : Array Instr) (whole : Block) : Control → Prop where
  | ended {pc} : OnTrack code whole ⟨[], pc⟩
  | inside {p outer b pc} : Stacked code whole (p :: outer) b → p.start ≤ pc → pc ≤ p.stop →
      OnTrack code whole ⟨p :: outer, pc⟩

section Stacked

variable {whole : Block}

/-- How many passes of its loop are left does not matter to a pass within others. -/
theorem Stacked.withLeft {start stop left left' : Nat} {outer : List Pass} {b : Block}
    (h : Stacked code whole (⟨start, stop, left + 1⟩ :: outer) b) :
    Stacked code whole (⟨start, stop, left'⟩ :: outer) b := by
  cases h with
  | within hstacked hcovers hdepth hstart hstop =>
    exact .within hstacked ⟨hcovers.stands, hcovers.stop_eq⟩ hdepth hstart hstop

theorem Stacked.stop_le_size {passes : List Pass} {b : Block}
    (h : Stacked code whole passes b) : ∀ p ∈ passes, p.stop ≤ code.size := by
  induction h with
  | outermost => simp
  | @within p q outer b body hstacked hcovers hdepth hstart hstop ih =>
    rw [List.forall_mem_cons]
    exact ⟨hstop.trans (ih q List.mem_cons_self), ih⟩

/-- Every pass within another takes one level of nesting. -/
theorem Stacked.length_le {passes : List Pass} {b : Block} (h : Stacked code whole passes b) :
    passes.length + b.depth ≤ whole.depth + 1 := by
  induction h with
  | outermost => simp [Nat.add_comm]
  | within _ _ hdepth _ _ ih =>
    rw [List.length_cons]
    omega

theorem Stacked.isChain {passes : List Pass} {b : Block} (h : Stacked code whole passes b) :
    passes.IsChain fun p q => q.start ≤ p.start ∧ p.stop ≤ q.stop := by
  induction h with
  | outermost => exact .singleton _
  | within _ _ _ hstart hstop ih => exact .cons_cons ⟨hstart, hstop⟩ ih

theorem Stacked.getLast? {passes : List Pass} {b : Block} (h : Stacked code whole passes b) :
    passes.getLast? = some ⟨0, code.size, 0⟩ := by
  induction h with
  | outermost => rfl
  | within _ _ _ _ _ ih => rw [List.getLast?_cons_cons, ih]

end Stacked

/-- What is fetched from inside some instructions that stand in the code is one of them. -/
theorem StandsAt.exists_split {is : List Instr} {start k stop : Nat} {i : Instr}
    (h : StandsAt code start is) (hk : k < is.length)
    (hfetch : fetch code (start + k) stop = some i) :
    ∃ before after, is = before ++ i :: after ∧ before.length = k := by
  obtain ⟨-, hget, -⟩ := fetch_eq_some hfetch
  obtain ⟨after, hafter⟩ := h
  have hi : is[k] = i := by
    have hdrop := congrArg (·[k]?) hafter
    simp only [List.getElem?_append_left hk, List.getElem?_eq_getElem hk, List.getElem?_drop,
      Array.getElem?_toList, hget, Option.some.injEq] at hdrop
    exact hdrop
  refine ⟨is.take k, is.drop (k + 1), ?_, List.length_take_of_le hk.le⟩
  rw [← hi, List.cons_getElem_drop_succ, List.take_append_drop]

section Invariant

variable {whole : Block} (hwhole : code.toList = whole.flatten)
include hwhole

theorem Stacked.covers {p : Pass} {outer : List Pass} {b : Block}
    (h : Stacked code whole (p :: outer) b) : Covers code p b := by
  cases h with
  | outermost => exact ⟨standsAt_zero hwhole, by simp [size_eq hwhole]⟩
  | within _ hcovers => exact hcovers

/-- A loop that a pass comes upon ends within the pass. Its body is a block. -/
theorem Stacked.exists_body {p : Pass} {outer : List Pass} {b : Block} {pc count len : Nat}
    {span : Text.Span} (h : Stacked code whole (p :: outer) b) (hstart : p.start ≤ pc)
    (hfetch : fetch code pc p.stop = some (.loop count len span)) :
    pc + 1 + len ≤ p.stop ∧ ∃ body : Block, body.depth < b.depth ∧
      ∀ left, Covers code ⟨pc + 1, pc + 1 + len, left⟩ body := by
  obtain ⟨hlt, -⟩ := fetch_eq_some hfetch
  obtain ⟨hstands, hstop⟩ := h.covers hwhole
  obtain ⟨k, rfl⟩ := Nat.exists_eq_add_of_le hstart
  obtain ⟨before, after, hsplit, rfl⟩ := hstands.exists_split (by omega) hfetch
  obtain ⟨body, rest, rfl, rfl, hdepth⟩ := Block.exists_body hsplit
  have hlength := congrArg List.length hsplit
  simp only [List.length_append, List.length_cons] at hlength
  rw [hsplit] at hstands
  obtain ⟨hbody, -⟩ := (StandsAt.append before hstands).2.of_loop
  exact ⟨by omega, body, hdepth, fun left => ⟨hbody, rfl⟩⟩

theorem Stacked.start_le_stop {p : Pass} {outer : List Pass} {b : Block}
    (h : Stacked code whole (p :: outer) b) : p.start ≤ p.stop := by
  rw [(h.covers hwhole).stop_eq]
  exact Nat.le_add_right _ _

/-- The counter stays on track. -/
theorem Move.onTrack {c c' : Control} {s : Option Statement} (h : Move code c c' s)
    (hc : OnTrack code whole c) : OnTrack code whole c' := by
  cases h with
  | again =>
    cases hc with
    | inside hstacked =>
      have hle := hstacked.start_le_stop hwhole
      exact .inside hstacked.withLeft (Nat.le_refl _) hle
  | leave =>
    cases hc with
    | inside hstacked =>
      have hle := hstacked.start_le_stop hwhole
      cases hstacked with
      | outermost => exact .ended
      | within hstacked _ _ hstart hstop => exact .inside hstacked (hstart.trans hle) hstop
  | carry hfetch =>
    cases hc with
    | inside hstacked hstart =>
      exact .inside hstacked (Nat.le_succ_of_le hstart) (fetch_eq_some hfetch).1
  | skip hfetch =>
    cases hc with
    | inside hstacked hstart =>
      obtain ⟨hle, -⟩ := hstacked.exists_body hwhole hstart hfetch
      exact .inside hstacked (by omega) hle
  | enter hfetch =>
    cases hc with
    | inside hstacked hstart =>
      obtain ⟨hle, body, hdepth, hcovers⟩ := hstacked.exists_body hwhole hstart hfetch
      refine .inside (.within hstacked (hcovers _) hdepth (by dsimp only; omega) hle) ?_ ?_
      · exact Nat.le_refl _
      · exact Nat.le_add_right _ _

end Invariant

/-! ## The counter in its place -/

/-- The counter and the passes under way, innermost first. -/
structure InPlace (code : Array Instr) (c : Control) : Prop where
  /-- Every pass lies within the one around it. -/
  nested : c.passes.IsChain fun p q => q.start ≤ p.start ∧ p.stop ≤ q.stop
  /-- The outermost pass goes through all of the code, once. -/
  outermost : ∀ p, c.passes.getLast? = some p → p = ⟨0, code.size, 0⟩
  /-- The counter is between the ends of the innermost pass. -/
  within : ∀ p, c.passes.head? = some p → p.start ≤ c.pc ∧ c.pc ≤ p.stop
  /-- Except at the very end of that pass, there is an instruction at the counter. -/
  in_range : ∀ p, c.passes.head? = some p → c.pc ≠ p.stop → c.pc < code.size

/-- A step that asks only whether the counter is equal to the end of the innermost pass. Anywhere
else, it takes for granted that there is an instruction, and it fails if there is none. -/
def plainStep (code : Array Instr) (c : Control) : Option (Control × Option Statement) :=
  match c.passes with
  | [] => none
  | p :: outer =>
    if c.pc = p.stop then
      if 0 < p.left then some (⟨{ p with left := p.left - 1 } :: outer, p.start⟩, none)
      else some (⟨outer, c.pc⟩, none)
    else match code[c.pc]? with
      | none => none
      | some (.statement s) => some (⟨p :: outer, c.pc + 1⟩, some s)
      | some (.loop count len _) =>
        if count = 0 then some (⟨p :: outer, c.pc + 1 + len⟩, none)
        else some (⟨⟨c.pc + 1, c.pc + 1 + len, count - 1⟩ :: p :: outer, c.pc + 1⟩, none)

section OnTrack

variable {whole : Block} {c : Control}

theorem OnTrack.inPlace (h : OnTrack code whole c) : c.InPlace code := by
  cases h with
  | ended => exact ⟨.nil, by simp, by simp, by simp⟩
  | @inside p outer b pc hstacked hstart hstop =>
    have hsize : p.stop ≤ code.size := hstacked.stop_le_size p List.mem_cons_self
    refine ⟨hstacked.isChain, ?_, ?_, ?_⟩
    · intro q hq
      rw [hstacked.getLast?] at hq
      exact (Option.some.inj hq).symm
    · rintro q ⟨⟩
      exact ⟨hstart, hstop⟩
    · rintro q ⟨⟩ hne
      exact Nat.lt_of_lt_of_le (Nat.lt_of_le_of_ne hstop hne) hsize

theorem OnTrack.length_le (h : OnTrack code whole c) : c.passes.length ≤ whole.depth + 1 := by
  cases h with
  | ended => exact Nat.zero_le _
  | inside hstacked => exact (Nat.le_add_right _ _).trans hstacked.length_le

/-- The counter never goes past the end of a pass, so it is enough to ask for the end itself. -/
theorem OnTrack.plainStep_eq (h : OnTrack code whole c) : c.plainStep code = c.step code := by
  cases h with
  | ended => rfl
  | @inside p outer b pc hstacked hstart hstop =>
    rcases Nat.eq_or_lt_of_le hstop with rfl | hlt
    · simp [plainStep, step, fetch_stop]
    · have hsize : pc < code.size := hlt.trans_le (hstacked.stop_le_size p List.mem_cons_self)
      simp only [plainStep, step, fetch, hlt.ne, hlt, if_true, if_false,
        Array.getElem?_eq_getElem hsize]
      cases code[pc] <;> rfl

end OnTrack

/-! ## The number of moves -/

theorem cost_block (b : Block) {pc stop : Nat} (hb : StandsAt code pc b.flatten)
    (hstop : pc + b.flatten.length ≤ stop) :
    cost code pc stop = b.moves + cost code (pc + b.flatten.length) stop := by
  induction b generalizing pc stop with
  | done => simp [Block.flatten, Block.moves]
  | statement s next ih =>
    simp only [Block.flatten, List.length_cons] at hb hstop ⊢
    have hfetch : fetch code pc stop = some (.statement s) := hb.fetch_eq (by omega)
    have hnext : StandsAt code (pc + 1) next.flatten := (StandsAt.append [.statement s] hb).2
    rw [cost_of_fetch_statement hfetch, ih hnext (by omega), Block.moves, Nat.add_assoc,
      Nat.add_assoc, Nat.add_comm 1 next.flatten.length]
  | loop count span body next ihbody ihnext =>
    simp only [Block.flatten, List.length_cons, List.length_append] at hb hstop ⊢
    have hfetch : fetch code pc stop = some (.loop count body.flatten.length span) :=
      hb.fetch_eq (by omega)
    obtain ⟨hbody, hnext⟩ := hb.of_loop
    -- one pass makes the moves of the body and ends with one more
    have hpass : cost code (pc + 1) (pc + 1 + body.flatten.length) = body.moves + 1 := by
      rw [ihbody hbody (Nat.le_refl _), cost_of_fetch_none (fetch_stop _)]
    have hplace : pc + 1 + body.flatten.length + next.flatten.length =
        pc + (body.flatten.length + next.flatten.length + 1) := by
      omega
    rw [cost_of_fetch_loop hfetch, hpass, ihnext hnext (by omega), hplace, Block.moves,
      Nat.add_assoc _ next.moves]

theorem remaining_start {whole : Block} (hwhole : code.toList = whole.flatten) :
    (start code).remaining code = whole.moves + 1 := by
  have hsize := size_eq hwhole
  have hcost : cost code 0 code.size =
      whole.moves + cost code (0 + whole.flatten.length) code.size :=
    cost_block whole (standsAt_zero hwhole) (by omega)
  rw [Nat.zero_add, ← hsize, cost_of_fetch_none (fetch_stop _)] at hcost
  simp [remaining, passesRemaining, start, hcost]

/-- The body is empty, and still every pass through it comes to its end once. -/
example : (Block.loop 4294967295 ⟨0, 6, 1, 1⟩ .done .done).moves = 4294967296 := by decide

/-- The control comes to `c` after `n` steps. -/
inductive After (code : Array Instr) : Nat → Control → Prop where
  | start : After code 0 (.start code)
  | next {n c c' s} : After code n c → c.step code = some (c', s) → After code (n + 1) c'

section After

variable {n : Nat} {c : Control} {whole : Block}

theorem After.onTrack (hwhole : code.toList = whole.flatten) (h : After code n c) :
    OnTrack code whole c := by
  induction h with
  | start => exact .inside .outermost (Nat.le_refl _) (Nat.zero_le _)
  | next _ hstep ih => exact (move_of_step hstep).onTrack hwhole ih

theorem After.add_remaining (h : After code n c) :
    n + c.remaining code = (Control.start code).remaining code := by
  induction h with
  | start => exact Nat.zero_add _
  | next _ hstep ih =>
    rw [remaining_of_step hstep] at ih
    omega

theorem After.exists_end (h : After code n c) :
    ∃ m c', After code m c' ∧ c'.step code = none := by
  induction hremaining : c.remaining code using Nat.strongRecOn generalizing n c with
  | ind k ih =>
    cases hstep : c.step code with
    | none => exact ⟨n, c, h, hstep⟩
    | some r =>
      have hless : r.1.remaining code < k := hremaining ▸ step_remaining hstep
      exact ih _ hless (h.next hstep) rfl

end After

end Control

/-- While the program of a text is carried out, every pass under way lies within the one around it,
the outermost is the pass through all of the code, and the counter is between the ends of the
innermost one. So it is enough to test whether it is at the end, and anywhere else there is an
instruction at it. Besides the outermost pass there are at most as many under way as loops are
nested. Every step leaves one step fewer. After as many steps as the block has moves, and one more
to end the outermost pass, no pass is left, whatever the counts are. -/
theorem counter_stays_in_place (text : String) :
    ∃ b : Block, (Program.read text).code.toList = b.flatten ∧
      (∀ n c, Control.After (Program.read text).code n c →
        c.InPlace (Program.read text).code ∧
        c.passes.length ≤ b.depth + 1 ∧
        c.plainStep (Program.read text).code = c.step (Program.read text).code ∧
        (c.step (Program.read text).code = none ↔ c.passes = []) ∧
        ∀ c' s, c.step (Program.read text).code = some (c', s) →
          c.remaining (Program.read text).code = c'.remaining (Program.read text).code + 1) ∧
      ∃ c, Control.After (Program.read text).code (b.moves + 1) c ∧ c.passes = [] := by
  obtain ⟨b, hflat⟩ := exists_block text
  refine ⟨b, hflat, ?_, ?_⟩
  · intro n c h
    have htrack := h.onTrack hflat
    exact ⟨htrack.inPlace, htrack.length_le, htrack.plainStep_eq, Control.step_eq_none,
      fun c' s hstep => Control.remaining_of_step hstep⟩
  · have hstart : Control.After (Program.read text).code 0 (.start (Program.read text).code) :=
      .start
    obtain ⟨n, c, h, hend⟩ := hstart.exists_end
    have hpasses := Control.step_eq_none.mp hend
    have hmoves := h.add_remaining
    rw [Control.remaining_start hflat, Control.remaining, hpasses, Control.passesRemaining,
      Nat.add_zero] at hmoves
    exact ⟨c, hmoves ▸ h, hpasses⟩

end TurtleGraphics
