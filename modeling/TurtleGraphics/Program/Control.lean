import TurtleGraphics.Program.Basic

namespace TurtleGraphics

/-!
# Going through a program

A program is carried out by one counter that moves over its list and a stack of the passes that are
under way: the pass through the whole program at the bottom, and above it one pass for each loop that
the counter is inside. When the counter reaches the end of the innermost pass it goes back to that
pass's start, if the loop has passes left, and otherwise the pass is over.

* `Control.step`: one move of the counter, with the statement that it came upon, if any.
* `Control.run`: carries out the statements one after the other on a state.
* `Control.remaining`: a number that every step makes smaller (`Control.step_remaining`), so that
  every run ends, whatever the list holds.

What is done on the way cannot influence the way: `Control.step` does not see the state.
-/

/-- A pass through the instructions from `start` up to `stop`, with `left` more to come. -/
structure Pass where
  start : Nat
  stop : Nat
  left : Nat
deriving DecidableEq, Repr

/-- The passes under way, innermost first, and the counter. -/
structure Control where
  passes : List Pass
  pc : Nat
deriving DecidableEq, Repr

namespace Control

/-- One pass through all of the code. -/
def start (code : Array Instr) : Control := ⟨[⟨0, code.size, 0⟩], 0⟩

/-- The instruction at `pc`, if it belongs to a pass that ends at `stop`. -/
def fetch (code : Array Instr) (pc stop : Nat) : Option Instr :=
  if pc < stop then code[pc]? else none

/-- One move, and the statement to carry out with it. There is none when the last pass is over. -/
@[inline] def step (code : Array Instr) (c : Control) : Option (Control × Option Statement) :=
  match c.passes with
  | [] => none
  | p :: outer => match fetch code c.pc p.stop with
    | none =>
      if 0 < p.left then some (⟨{ p with left := p.left - 1 } :: outer, p.start⟩, none)
      else some (⟨outer, p.stop⟩, none)
    | some (.statement s) => some (⟨p :: outer, c.pc + 1⟩, some s)
    | some (.loop count len _) =>
      if count = 0 then some (⟨p :: outer, c.pc + 1 + len⟩, none)
      else some (⟨⟨c.pc + 1, c.pc + 1 + len, count - 1⟩ :: p :: outer, c.pc + 1⟩, none)

/-! ## Every run ends -/

theorem fetch_eq_some {code : Array Instr} {pc stop : Nat} {i : Instr}
    (h : fetch code pc stop = some i) : pc < stop ∧ code[pc]? = some i ∧ pc < code.size := by
  unfold fetch at h
  split at h
  · exact ⟨‹_›, h, (Array.getElem?_eq_some_iff.mp h).1⟩
  · cases h

/-- How many steps it takes from `pc` to the end of a pass at `stop`, the end included. -/
def cost (code : Array Instr) (pc stop : Nat) : Nat :=
  match h : fetch code pc stop with
  | none => 1
  | some (.statement _) =>
    have := (fetch_eq_some h).2.2
    1 + cost code (pc + 1) stop
  | some (.loop count len _) =>
    have := (fetch_eq_some h).2.2
    1 + count * cost code (pc + 1) (pc + 1 + len) + cost code (pc + 1 + len) stop
termination_by code.size - pc

/-- How many steps are left for some passes when the counter is at `pc`. -/
def passesRemaining (code : Array Instr) : List Pass → Nat → Nat
  | [], _ => 0
  | p :: outer, pc =>
    cost code pc p.stop + p.left * cost code p.start p.stop + passesRemaining code outer p.stop

/-- How many steps are left. -/
def remaining (code : Array Instr) (c : Control) : Nat :=
  passesRemaining code c.passes c.pc

theorem cost_of_fetch_none {code : Array Instr} {pc stop : Nat} (h : fetch code pc stop = none) :
    cost code pc stop = 1 := by
  rw [cost]; split <;> simp_all

theorem cost_of_fetch_statement {code : Array Instr} {pc stop : Nat} {s : Statement}
    (h : fetch code pc stop = some (.statement s)) :
    cost code pc stop = 1 + cost code (pc + 1) stop := by
  rw [cost]; split <;> simp_all

theorem cost_of_fetch_loop {code : Array Instr} {pc stop count len : Nat} {span : Text.Span}
    (h : fetch code pc stop = some (.loop count len span)) :
    cost code pc stop =
      1 + count * cost code (pc + 1) (pc + 1 + len) + cost code (pc + 1 + len) stop := by
  rw [cost]; split <;> simp_all

/-- Every step is one of those that were left. -/
theorem remaining_of_step {code : Array Instr} {c c' : Control} {s : Option Statement}
    (h : c.step code = some (c', s)) : c.remaining code = c'.remaining code + 1 := by
  obtain ⟨passes, pc⟩ := c
  unfold step at h
  split at h
  · cases h
  · rename_i p outer hp
    dsimp only at hp h
    subst hp
    simp only [remaining, passesRemaining]
    split at h
    · rename_i hf
      have hcost := cost_of_fetch_none hf
      split at h <;> cases h <;> simp only [passesRemaining]
      · -- another pass
        have : p.left * cost code p.start p.stop =
            (p.left - 1) * cost code p.start p.stop + cost code p.start p.stop := by
          rw [← Nat.succ_mul]; congr 1; omega
        omega
      · -- the pass is over
        rename_i hleft
        rw [Nat.eq_zero_of_not_pos hleft, Nat.zero_mul]
        omega
    · rename_i hf
      have hcost := cost_of_fetch_statement hf
      cases h
      simp only [passesRemaining]
      omega
    · rename_i count len span hf
      have hcost := cost_of_fetch_loop hf
      split at h <;> cases h <;> simp only [passesRemaining]
      · -- a loop that does not run
        rename_i hzero
        subst hzero
        omega
      · -- the first pass of a loop
        have : count * cost code (pc + 1) (pc + 1 + len) =
            (count - 1) * cost code (pc + 1) (pc + 1 + len) +
              cost code (pc + 1) (pc + 1 + len) := by
          rw [← Nat.succ_mul]; congr 1; omega
        omega

/-- Every step leaves fewer steps. -/
theorem step_remaining {code : Array Instr} {c c' : Control} {s : Option Statement}
    (h : c.step code = some (c', s)) : c'.remaining code < c.remaining code := by
  rw [remaining_of_step h]
  exact Nat.lt_succ_self _

/-- Carries out the statements that come up, in order, on a state. -/
def run {σ : Type} (code : Array Instr) (act : σ → Statement → σ) (c : Control) (state : σ) : σ :=
  match h : c.step code with
  | none => state
  | some (c', some s) =>
    have := step_remaining h
    run code act c' (act state s)
  | some (c', none) =>
    have := step_remaining h
    run code act c' state
termination_by c.remaining code

end Control

end TurtleGraphics
