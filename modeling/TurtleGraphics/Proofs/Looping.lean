import TurtleGraphics.Program.Control
import TurtleGraphics.Workspace
import TurtleGraphics.Proofs.Reading

namespace TurtleGraphics

/-! # Loops run as trees

The counter and the stack of passes do what plain recursion over the tree does.

* `Control.Move`: what a step does, case by case.
* `Control.Reaches`: some steps of the control, with what the statements on the way do to a state.
* `Control.run_preserves_of_mem`: the invariant rule for runs.
* `Control.run_foldl`: a run is a fold over the statements that come up in it.
* `Control.StandsAt`: a list of instructions stands at a place in the code.
* `Control.reaches_passes`: a body that is gone through once in each pass is gone through as
  often as there are passes.
* `Control.reaches_block`: where a block stands in the code, the counter gets from its beginning
  to its end, with the passes unchanged and the effect of `Block.run`.
* `Execution.run_preserves`: the invariant rule for carrying out programs.

`read_runs_as_tree` is the consequence for the programs of texts.
-/

namespace Control

/-! ## Moves -/

/-- What a step does. -/
inductive Move (code : Array Instr) : Control → Control → Option Statement → Prop where
  /-- At the end of a pass, the next pass of its loop begins. -/
  | again {start stop left outer pc} : fetch code pc stop = none →
      Move code ⟨⟨start, stop, left + 1⟩ :: outer, pc⟩ ⟨⟨start, stop, left⟩ :: outer, start⟩ none
  /-- At the end of the last pass, the loop is over. -/
  | leave {start stop outer pc} : fetch code pc stop = none →
      Move code ⟨⟨start, stop, 0⟩ :: outer, pc⟩ ⟨outer, stop⟩ none
  | carry {p outer pc s} : fetch code pc p.stop = some (.statement s) →
      Move code ⟨p :: outer, pc⟩ ⟨p :: outer, pc + 1⟩ (some s)
  | skip {p outer pc len span} : fetch code pc p.stop = some (.loop 0 len span) →
      Move code ⟨p :: outer, pc⟩ ⟨p :: outer, pc + 1 + len⟩ none
  | enter {p outer pc left len span} : fetch code pc p.stop = some (.loop (left + 1) len span) →
      Move code ⟨p :: outer, pc⟩ ⟨⟨pc + 1, pc + 1 + len, left⟩ :: p :: outer, pc + 1⟩ none

theorem move_of_step {code : Array Instr} {c c' : Control} {s : Option Statement}
    (h : c.step code = some (c', s)) : Move code c c' s := by
  obtain ⟨passes, pc⟩ := c
  cases passes with
  | nil => cases h
  | cons p outer =>
    simp only [step] at h
    split at h
    · rename_i hfetch
      obtain ⟨start, stop, left⟩ := p
      cases left with
      | zero =>
        cases h
        exact .leave hfetch
      | succ left =>
        cases h
        exact .again hfetch
    · rename_i hfetch
      cases h
      exact .carry hfetch
    · rename_i count len span hfetch
      cases count with
      | zero =>
        cases h
        exact .skip hfetch
      | succ left =>
        cases h
        exact .enter hfetch

theorem step_eq_none {code : Array Instr} {c : Control} : c.step code = none ↔ c.passes = [] := by
  obtain ⟨passes, pc⟩ := c
  cases passes with
  | nil => simp [step]
  | cons p outer =>
    simp only [step, reduceCtorEq, iff_false]
    split
    · split <;> simp
    · simp
    · split <;> simp

/-! ## Runs -/

section Run

variable {σ : Type} {code : Array Instr} {act : σ → Statement → σ}

/-- The control gets from one point to another in some steps, and the statements that come up on
the way turn one state into the other. -/
inductive Reaches (code : Array Instr) (act : σ → Statement → σ) :
    Control → σ → Control → σ → Prop where
  | refl {c e} : Reaches code act c e c e
  | move {c c₁ c₂ e e₂} : c.step code = some (c₁, none) → Reaches code act c₁ e c₂ e₂ →
      Reaches code act c e c₂ e₂
  | carry {c c₁ c₂ e e₂ s} : c.step code = some (c₁, some s) →
      Reaches code act c₁ (act e s) c₂ e₂ → Reaches code act c e c₂ e₂

theorem Reaches.trans {c c₁ c₂ : Control} {e e₁ e₂ : σ} (h : Reaches code act c e c₁ e₁)
    (h' : Reaches code act c₁ e₁ c₂ e₂) : Reaches code act c e c₂ e₂ := by
  induction h with
  | refl => exact h'
  | move hstep _ ih => exact .move hstep (ih h')
  | carry hstep _ ih => exact .carry hstep (ih h')

theorem run_step (c : Control) (e : σ) :
    run code act c e = match c.step code with
      | none => e
      | some (c', some s) => run code act c' (act e s)
      | some (c', none) => run code act c' e := by
  rw [run]
  split <;> rename_i h <;> simp only [h]

/-- A run has the effect of any beginning of it and then of the rest. -/
theorem Reaches.run_eq {c c' : Control} {e e' : σ} (h : Reaches code act c e c' e') :
    run code act c e = run code act c' e' := by
  induction h with
  | refl => rfl
  | move hstep _ ih =>
    rw [run_step, hstep]
    exact ih
  | carry hstep _ ih =>
    rw [run_step, hstep]
    exact ih

theorem run_of_step_none {c : Control} {e : σ} (h : c.step code = none) :
    run code act c e = e := by
  rw [run_step, h]

/-- A statement that comes up is one of the code. -/
theorem mem_of_step {c c' : Control} {s : Statement} (h : c.step code = some (c', some s)) :
    .statement s ∈ code := by
  cases move_of_step h with
  | carry hfetch => exact Array.mem_of_getElem? (fetch_eq_some hfetch).2.1

/-- What every statement of the code preserves is preserved by every run, wherever the counter
goes. -/
theorem run_preserves_of_mem {P : σ → Prop}
    (hact : ∀ e s, .statement s ∈ code → P e → P (act e s)) (c : Control) (e : σ) (h : P e) :
    P (run code act c e) := by
  fun_induction run code act c e with
  | case1 c e hend => exact h
  | case2 c e c' s hstep _ ih => exact ih (hact e s (mem_of_step hstep) h)
  | case3 c e c' hstep _ ih => exact ih h

/-- A run carries out the statements that come up in it, whatever is done with them. -/
theorem run_foldl (c : Control) (done : List Statement) (e : σ) :
    run code act c (done.foldl act e) =
      (run code (fun done s => done ++ [s]) c done).foldl act e := by
  fun_induction run code (fun (done : List Statement) s => done ++ [s]) c done with
  | case1 c done hend => exact run_of_step_none hend
  | case2 c done c' s hstep _ ih =>
    rw [run_step, hstep, ← ih, List.foldl_append]
    rfl
  | case3 c done c' hstep _ ih => rw [run_step, hstep, ← ih]

/-! ## Steps -/

variable {p : Pass} {outer : List Pass} {pc : Nat}

theorem step_statement {s : Statement} (h : fetch code pc p.stop = some (.statement s)) :
    step code ⟨p :: outer, pc⟩ = some (⟨p :: outer, pc + 1⟩, some s) := by
  simp [step, h]

theorem step_skip {len : Nat} {span : Text.Span}
    (h : fetch code pc p.stop = some (.loop 0 len span)) :
    step code ⟨p :: outer, pc⟩ = some (⟨p :: outer, pc + 1 + len⟩, none) := by
  simp [step, h]

theorem step_enter {left len : Nat} {span : Text.Span}
    (h : fetch code pc p.stop = some (.loop (left + 1) len span)) :
    step code ⟨p :: outer, pc⟩ =
      some (⟨⟨pc + 1, pc + 1 + len, left⟩ :: p :: outer, pc + 1⟩, none) := by
  simp [step, h]

theorem fetch_stop (stop : Nat) : fetch code stop stop = none := by
  simp [fetch]

theorem step_again {start stop left : Nat} :
    step code ⟨⟨start, stop, left + 1⟩ :: outer, stop⟩ =
      some (⟨⟨start, stop, left⟩ :: outer, start⟩, none) := by
  simp [step, fetch_stop]

theorem step_over {start stop : Nat} :
    step code ⟨⟨start, stop, 0⟩ :: outer, stop⟩ = some (⟨outer, stop⟩, none) := by
  simp [step, fetch_stop]

/-! ## Blocks in the code -/

/-- The instructions `is` stand in the code from place `pc` on. -/
def StandsAt (code : Array Instr) (pc : Nat) (is : List Instr) : Prop :=
  is <+: code.toList.drop pc

theorem StandsAt.append (is : List Instr) {js : List Instr} (h : StandsAt code pc (is ++ js)) :
    StandsAt code pc is ∧ StandsAt code (pc + is.length) js := by
  obtain ⟨after, h⟩ := h
  constructor
  · exact ⟨js ++ after, by simpa using h⟩
  · refine ⟨after, ?_⟩
    rw [← List.drop_drop, ← h]
    simp

/-- After a loop stands its body, and then what comes after it. -/
theorem StandsAt.of_loop {count len : Nat} {span : Text.Span} {body next : List Instr}
    (h : StandsAt code pc (.loop count len span :: (body ++ next))) :
    StandsAt code (pc + 1) body ∧ StandsAt code (pc + 1 + body.length) next :=
  StandsAt.append body (StandsAt.append [.loop count len span] h).2

theorem size_eq {b : Block} (h : code.toList = b.flatten) : code.size = b.flatten.length := by
  rw [← h, Array.length_toList]

theorem standsAt_zero {b : Block} (h : code.toList = b.flatten) : StandsAt code 0 b.flatten :=
  ⟨[], by simp [h]⟩

/-- The first of some instructions is fetched, if the pass goes beyond it. -/
theorem StandsAt.fetch_eq {i : Instr} {is : List Instr} {stop : Nat}
    (h : StandsAt code pc (i :: is)) (hstop : pc < stop) : fetch code pc stop = some i := by
  obtain ⟨after, h⟩ := h
  have hget : code.toList[pc]? = some i := by
    have := congrArg (·[0]?) h
    simpa using this.symm
  simpa [fetch, hstop] using hget

theorem reaches_passes {start stop left : Nat} {f : σ → σ}
    (hpass : ∀ left e, Reaches code act ⟨⟨start, stop, left⟩ :: outer, start⟩ e
      ⟨⟨start, stop, left⟩ :: outer, stop⟩ (f e)) (e : σ) :
    Reaches code act ⟨⟨start, stop, left⟩ :: outer, start⟩ e ⟨outer, stop⟩
      (f^[left + 1] e) := by
  induction left generalizing e with
  | zero => exact (hpass 0 e).trans (.move step_over .refl)
  | succ left ih => exact (hpass (left + 1) e).trans (.move step_again (ih (f e)))

/-- The counter goes through a block that stands in the code, and the effect is that of recursion
over the block. -/
theorem reaches_block (b : Block) (hb : StandsAt code pc b.flatten)
    (hstop : pc + b.flatten.length ≤ p.stop) (e : σ) :
    Reaches code act ⟨p :: outer, pc⟩ e ⟨p :: outer, pc + b.flatten.length⟩ (b.run act e) := by
  induction b generalizing pc p outer e with
  | done => exact .refl
  | statement s next ih =>
    simp only [Block.flatten, List.length_cons] at hb hstop ⊢
    have hfetch : fetch code pc p.stop = some (.statement s) := hb.fetch_eq (by omega)
    have hnext : StandsAt code (pc + 1) next.flatten := (StandsAt.append [.statement s] hb).2
    have hrest : Reaches code act ⟨p :: outer, pc + 1⟩ (act e s)
        ⟨p :: outer, pc + 1 + next.flatten.length⟩ (next.run act (act e s)) :=
      ih hnext (by omega) (act e s)
    rw [Nat.add_assoc, Nat.add_comm 1] at hrest
    exact .carry (step_statement hfetch) hrest
  | loop count span body next ihbody ihnext =>
    simp only [Block.flatten, List.length_cons, List.length_append] at hb hstop ⊢
    have hfetch : fetch code pc p.stop = some (.loop count body.flatten.length span) :=
      hb.fetch_eq (by omega)
    obtain ⟨hbody, hnext⟩ := hb.of_loop
    have hpass : ∀ left e, Reaches code act
        ⟨⟨pc + 1, pc + 1 + body.flatten.length, left⟩ :: p :: outer, pc + 1⟩ e
        ⟨⟨pc + 1, pc + 1 + body.flatten.length, left⟩ :: p :: outer,
          pc + 1 + body.flatten.length⟩ (body.run act e) := by
      intro left e
      exact ihbody hbody (Nat.le_refl _) e
    have hrest : Reaches code act
        ⟨p :: outer, pc + 1 + body.flatten.length⟩ ((body.run act)^[count] e)
        ⟨p :: outer, pc + 1 + body.flatten.length + next.flatten.length⟩
        (next.run act ((body.run act)^[count] e)) :=
      ihnext hnext (by omega) ((body.run act)^[count] e)
    rw [show pc + 1 + body.flatten.length + next.flatten.length =
      pc + (body.flatten.length + next.flatten.length + 1) by omega] at hrest
    cases count with
    | zero =>
      -- a loop that does not run
      exact .move (step_skip hfetch) hrest
    | succ left =>
      -- all passes through the body, and then the rest of the block
      exact .move (step_enter hfetch) ((reaches_passes hpass e).trans hrest)

/-- A block that makes up the whole code is gone through from its beginning until no pass is
left. -/
theorem reaches_end (act : σ → Statement → σ) (b : Block) (h : code.toList = b.flatten) (e : σ) :
    ∃ c, Reaches code act (start code) e c (b.run act e) ∧ c.step code = none := by
  have hsize := size_eq h
  have hblock : Reaches code act (start code) e ⟨[⟨0, code.size, 0⟩], 0 + b.flatten.length⟩
      (b.run act e) := reaches_block b (standsAt_zero h) (by simp [hsize]) e
  rw [Nat.zero_add, ← hsize] at hblock
  exact ⟨⟨[], code.size⟩, hblock.trans (.move step_over .refl), rfl⟩

theorem run_eq_run_block (b : Block) (h : code.toList = b.flatten) (e : σ) :
    run code act (start code) e = b.run act e := by
  obtain ⟨c, hreaches, hend⟩ := reaches_end act b h e
  rw [hreaches.run_eq, run_of_step_none hend]

end Run

end Control

/-- What the statements of a program preserve, and the complaint about its fault, is preserved by
carrying it out. -/
theorem Execution.run_preserves {P : Execution → Prop} {palette : Palette} {program : Program}
    (hact : ∀ e s, .statement s ∈ program.code → P e → P (e.act palette s))
    (hfault : ∀ e p, program.fault = some p → P e → P (e.complain p)) {e : Execution} (h : P e) :
    P (e.run palette program) := by
  have hrun : P ((Control.start program.code).run program.code (Execution.act palette) e) :=
    Control.run_preserves_of_mem hact _ e h
  unfold Execution.run
  split
  · exact hfault _ _ ‹_› hrun
  · exact hrun

/-- The program of a text is a tree in preorder, and only of that tree. Going through it ends after
finitely many steps, and with what plain recursion over the tree comes to: the same turtle, path
and surface calls, and the same entries in every list of the report. -/
theorem read_runs_as_tree (text : String) :
    ∃ b : Block, (Program.read text).code.toList = b.flatten ∧
      (∀ b' : Block, (Program.read text).code.toList = b'.flatten → b' = b) ∧
      ∀ (palette : Palette) (e : Execution),
        (∃ c, c.step (Program.read text).code = none ∧
          Control.Reaches (Program.read text).code (Execution.act palette)
            (Control.start (Program.read text).code) e c (b.run (Execution.act palette) e)) ∧
        (Control.start (Program.read text).code).run (Program.read text).code
          (Execution.act palette) e = b.run (Execution.act palette) e := by
  obtain ⟨b, hflat⟩ := exists_block text
  refine ⟨b, hflat, ?_, ?_⟩
  · intro b' hb'
    exact Block.flatten_injective (hb'.symm.trans hflat)
  · intro palette e
    obtain ⟨c, hreaches, hend⟩ := Control.reaches_end (Execution.act palette) b hflat e
    exact ⟨⟨c, hend, hreaches⟩, Control.run_eq_run_block b hflat e⟩

end TurtleGraphics
