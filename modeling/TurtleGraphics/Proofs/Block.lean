import Mathlib
import TurtleGraphics.Program.Basic

namespace TurtleGraphics

open Text (Span)

/-! # Blocks: programs as trees

A program's code is a tree written out in preorder. Here is the tree itself.

* `Block`: a sequence of statements and loops, each loop with a block as its body.
* `Block.flatten`: the block in preorder, as programs keep it. Every loop says how many
  instructions its body takes up.
* `Block.run`: what the block does, by plain recursion over the tree. This is the reference
  for the counter and the stack of passes of `Control`.
* `Block.flatten_injective`: the list determines the tree.
* `Nested`: no loop of a list reaches past the end of the list or of a loop around it;
  `Block.nested_flatten` says that this holds of every list that comes from a block.
-/

/-- A sequence of statements and loops. -/
inductive Block where
  /-- Nothing more. -/
  | done
  | statement (s : Statement) (next : Block)
  | loop (count : Nat) (span : Span) (body next : Block)
deriving DecidableEq, Repr

namespace Block

/-- The block in preorder. -/
def flatten : Block → List Instr
  | .done => []
  | .statement s next => .statement s :: next.flatten
  | .loop count span body next =>
    .loop count body.flatten.length span :: (body.flatten ++ next.flatten)

/-- One block after another. -/
def append : Block → Block → Block
  | .done, after => after
  | .statement s next, after => .statement s (next.append after)
  | .loop count span body next, after => .loop count span body (next.append after)

@[simp] theorem flatten_append (b after : Block) :
    (b.append after).flatten = b.flatten ++ after.flatten := by
  induction b with
  | done => rfl
  | statement s next ih => simp [append, flatten, ih]
  | loop count span body next _ ih => simp [append, flatten, ih]

/-- The list determines the tree: a loop's length tells where its body ends. -/
theorem flatten_injective : Function.Injective flatten := by
  intro b
  induction b with
  | done =>
    intro b' h
    cases b' <;> simp [flatten] at h ⊢
  | statement s next ih =>
    intro b' h
    cases b' with
    | done => simp [flatten] at h
    | statement s' next' =>
      simp only [flatten, List.cons.injEq, Instr.statement.injEq] at h
      rw [h.1, ih h.2]
    | loop => simp [flatten] at h
  | loop count span body next ihb ihn =>
    intro b' h
    cases b' with
    | done => simp [flatten] at h
    | statement => simp [flatten] at h
    | loop count' span' body' next' =>
      simp only [flatten, List.cons.injEq, Instr.loop.injEq] at h
      obtain ⟨⟨hcount, hlen, hspan⟩, htail⟩ := h
      -- bodies of the same length end at the same place of the same list
      obtain ⟨hbody, hnext⟩ := List.append_inj htail hlen
      rw [hcount, hspan, ihb hbody, ihn hnext]

/-! ## Running a block -/

section Run

variable {σ : Type} (act : σ → Statement → σ)

/-- Carries out the statements of a block on a state. A loop carries out its body as many times
as its count says. -/
def run : Block → σ → σ
  | .done, e => e
  | .statement s next, e => next.run (act e s)
  | .loop count _ body next, e => next.run ((body.run)^[count] e)

theorem run_append (b after : Block) (e : σ) :
    (b.append after).run act e = after.run act (b.run act e) := by
  induction b generalizing e with
  | done => rfl
  | statement s next ih => exact ih _
  | loop count span body next _ ih => exact ih _

end Run

end Block

/-! ## Extents of loops -/

/-- Where the body of the loop at place `i` ends, if there is a loop. -/
def bodyEnd? (code : List Instr) (i : Nat) : Option Nat :=
  match code[i]? with
  | some (.loop _ len _) => some (i + 1 + len)
  | _ => none

/-- No loop reaches past the end of the list, or past the end of a loop that it is in. -/
structure Nested (code : List Instr) : Prop where
  le_length : ∀ i e, bodyEnd? code i = some e → e ≤ code.length
  le_outer : ∀ i e j e', bodyEnd? code i = some e → bodyEnd? code j = some e' →
    i < j → j < e → e' ≤ e

theorem bodyEnd?_lt_length {code : List Instr} {i e : Nat} (h : bodyEnd? code i = some e) :
    i < code.length := by
  unfold bodyEnd? at h
  split at h
  · exact (List.getElem?_eq_some_iff.mp ‹_›).1
  · cases h

theorem bodyEnd?_cons_succ (x : Instr) (code : List Instr) (i : Nat) :
    bodyEnd? (x :: code) (i + 1) = (bodyEnd? code i).map (· + 1) := by
  simp only [bodyEnd?, List.getElem?_cons_succ]
  split
  · simp only [Option.map_some, Option.some.injEq]
    omega
  · rfl

theorem bodyEnd?_append_left {l₁ l₂ : List Instr} {i : Nat} (h : i < l₁.length) :
    bodyEnd? (l₁ ++ l₂) i = bodyEnd? l₁ i := by
  simp only [bodyEnd?, List.getElem?_append_left h]

theorem bodyEnd?_append_right (l₁ l₂ : List Instr) (i : Nat) :
    bodyEnd? (l₁ ++ l₂) (l₁.length + i) = (bodyEnd? l₂ i).map (l₁.length + ·) := by
  simp only [bodyEnd?, List.getElem?_append_right (Nat.le_add_right ..), Nat.add_sub_cancel_left]
  split
  · simp only [Option.map_some, Option.some.injEq]
    omega
  · rfl

namespace Nested

theorem nil : Nested [] where
  le_length i e h := by simp [bodyEnd?] at h
  le_outer i e j e' h := by simp [bodyEnd?] at h

theorem append {l₁ l₂ : List Instr} (h₁ : Nested l₁) (h₂ : Nested l₂) : Nested (l₁ ++ l₂) := by
  -- a loop of the whole list is a loop of one of the parts, at its place there
  have split_at : ∀ i e, bodyEnd? (l₁ ++ l₂) i = some e →
      (i < l₁.length ∧ bodyEnd? l₁ i = some e) ∨
        ∃ i' e', i = l₁.length + i' ∧ e = l₁.length + e' ∧ bodyEnd? l₂ i' = some e' := by
    intro i e h
    rcases Nat.lt_or_ge i l₁.length with hi | hi
    · exact .inl ⟨hi, by rwa [bodyEnd?_append_left hi] at h⟩
    · obtain ⟨i', rfl⟩ := Nat.exists_eq_add_of_le hi
      rw [bodyEnd?_append_right] at h
      obtain ⟨e', he', rfl⟩ := Option.map_eq_some_iff.mp h
      exact .inr ⟨i', e', rfl, rfl, he'⟩
  constructor
  · intro i e hi
    rw [List.length_append]
    rcases split_at i e hi with ⟨_, hi₁⟩ | ⟨i₂, e₂, rfl, rfl, hi₂⟩
    · have := h₁.le_length i e hi₁
      omega
    · have := h₂.le_length i₂ e₂ hi₂
      omega
  · intro i e j e' hi hj hij hje
    rcases split_at i e hi with ⟨_, hi₁⟩ | ⟨i₂, e₂, rfl, rfl, hi₂⟩
    · rcases split_at j e' hj with ⟨_, hj₁⟩ | ⟨j₂, e₂', rfl, rfl, hj₂⟩
      · exact h₁.le_outer i e j e' hi₁ hj₁ hij hje
      · -- the outer loop would have to reach into the second part
        have := h₁.le_length i e hi₁
        omega
    · rcases split_at j e' hj with ⟨_, hj₁⟩ | ⟨j₂, e₂', rfl, rfl, hj₂⟩
      · -- the inner loop would have to begin before the outer one
        omega
      · have := h₂.le_outer i₂ e₂ j₂ e₂' hi₂ hj₂ (by omega) (by omega)
        omega

theorem statement (s : Statement) : Nested [.statement s] where
  le_length i e h := by
    have := bodyEnd?_lt_length h
    obtain rfl : i = 0 := by simpa using this
    simp [bodyEnd?] at h
  le_outer i e j e' _ hj hij := by
    have := bodyEnd?_lt_length hj
    simp only [List.length_singleton] at this
    omega

theorem loop {body : List Instr} (h : Nested body) (count : Nat) (span : Span) :
    Nested (.loop count body.length span :: body) := by
  have inside : ∀ j e', bodyEnd? (.loop count body.length span :: body) (j + 1) = some e' →
      ∃ e, e' = e + 1 ∧ bodyEnd? body j = some e := by
    intro j e' hj
    rw [bodyEnd?_cons_succ] at hj
    obtain ⟨e, he, rfl⟩ := Option.map_eq_some_iff.mp hj
    exact ⟨e, rfl, he⟩
  have whole : ∀ e, bodyEnd? (.loop count body.length span :: body) 0 = some e →
      e = body.length + 1 := by
    intro e he
    simp only [bodyEnd?, List.getElem?_cons_zero, Option.some.injEq] at he
    omega
  constructor
  · intro i e hi
    rw [List.length_cons]
    cases i with
    | zero => exact Nat.le_of_eq (whole e hi)
    | succ i =>
      obtain ⟨e₁, rfl, hi₁⟩ := inside i e hi
      have := h.le_length i e₁ hi₁
      omega
  · intro i e j e' hi hj hij hje
    cases j with
    | zero => omega
    | succ j =>
      obtain ⟨e₂, rfl, hj₂⟩ := inside j e' hj
      cases i with
      | zero =>
        -- the outer loop is the new one, which reaches to the end
        have := whole e hi
        have := h.le_length j e₂ hj₂
        omega
      | succ i =>
        obtain ⟨e₁, rfl, hi₁⟩ := inside i e hi
        have := h.le_outer i e₁ j e₂ hi₁ hj₂ (by omega) (by omega)
        omega

end Nested

theorem Block.nested_flatten (b : Block) : Nested b.flatten := by
  induction b with
  | done => exact Nested.nil
  | statement s next ih => exact (Nested.statement s).append ih
  | loop count span body next ihb ihn => exact (ihb.loop count span).append ihn

end TurtleGraphics
