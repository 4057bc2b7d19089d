import TurtleGraphics.Proofs.Dispatch
import TurtleGraphics.Proofs.Endings
import TurtleGraphics.Proofs.Lines
import TurtleGraphics.Proofs.Succession

namespace TurtleGraphics

/-! # Counting problems and warnings

How many problems and warnings a text has can be counted without running it: every statement counts
as often as the loops around it say.

* `rounds`: how often the loops around a place have it carried out. `rounds_eq_zero_iff` says when
  that is never.
* `total`: a weight for each statement, added up with the rounds. It is additive over blocks in a
  row (`total_append`), and a loop multiplies it (`total_loop`).
* `Block.run_total`: whatever grows by the weight of a statement with every statement grows by the
  total in a run.
* `Program.problemCount`, `Program.warningCount`: the two counts.

`diagnostics_counted` is about all texts in all workspaces, and about the exit codes of jobs.
-/

/-! ## Rounds -/

section Rounds

variable {code l₁ l₂ body : List Instr} {i : Nat}

/-- How many passes the loop at the place `j`, if there is one, makes over what is at `i`. -/
def passesOver (code : List Instr) (i j : Nat) : Nat :=
  match code[j]? with
  | some (.loop count len _) => if i < j + 1 + len then count else 1
  | _ => 1

/-- How often the loops around the place `i`, all of which begin before it, have it carried out. -/
def rounds (code : List Instr) (i : Nat) : Nat :=
  ∏ j ∈ Finset.range i, passesOver code i j

/-- A loop without passes is around the place `i`. -/
def Skipped (code : List Instr) (i : Nat) : Prop :=
  ∃ j < i, ∃ len span, code[j]? = some (.loop 0 len span) ∧ i < j + 1 + len

theorem passesOver_eq_zero_iff {j : Nat} :
    passesOver code i j = 0 ↔ ∃ len span, code[j]? = some (.loop 0 len span) ∧ i < j + 1 + len := by
  unfold passesOver
  constructor
  · intro h
    split at h
    · rename_i count len span hloop
      split_ifs at h with hinside
      rw [h] at hloop
      exact ⟨len, span, hloop, hinside⟩
    · cases h
  · intro ⟨len, span, hloop, hinside⟩
    simp [hloop, hinside]

theorem rounds_eq_zero_iff : rounds code i = 0 ↔ Skipped code i := by
  simp only [rounds, Finset.prod_eq_zero_iff, Finset.mem_range, passesOver_eq_zero_iff, Skipped]

theorem rounds_append_left (h : i ≤ l₁.length) : rounds (l₁ ++ l₂) i = rounds l₁ i := by
  refine Finset.prod_congr rfl ?_
  intro j hj
  have hlt : j < l₁.length := Nat.lt_of_lt_of_le (Finset.mem_range.mp hj) h
  simp only [passesOver, List.getElem?_append_left hlt]

/-- A loop that is over makes no passes over what comes later. -/
theorem passesOver_of_nested (h : Nested l₁) {j : Nat} (hj : j < l₁.length)
    (hi : l₁.length ≤ i) : passesOver (l₁ ++ l₂) i j = 1 := by
  unfold passesOver
  rw [List.getElem?_append_left hj]
  split
  · rename_i count len span hloop
    have hend := h.le_length j (j + 1 + len) (by simp only [bodyEnd?, hloop])
    rw [if_neg (by omega)]
  · rfl

theorem rounds_append_right (h : Nested l₁) (l₂ : List Instr) (i : Nat) :
    rounds (l₁ ++ l₂) (l₁.length + i) = rounds l₂ i := by
  have hbefore : ∏ j ∈ Finset.range l₁.length, passesOver (l₁ ++ l₂) (l₁.length + i) j = 1 := by
    refine Finset.prod_eq_one ?_
    intro j hj
    exact passesOver_of_nested h (Finset.mem_range.mp hj) (Nat.le_add_right _ _)
  -- the loops that count are those of the second part, each as far from its start as before
  rw [rounds, Finset.prod_range_add, hbefore, Nat.one_mul, rounds]
  refine Finset.prod_congr rfl ?_
  intro j _
  simp only [passesOver, List.getElem?_append_right (Nat.le_add_right _ _),
    Nat.add_sub_cancel_left, Nat.add_assoc, Nat.add_lt_add_iff_left]

theorem rounds_loop (h : i < body.length) (count : Nat) (span : Text.Span) :
    rounds (.loop count body.length span :: body) (i + 1) = count * rounds body i := by
  have hfirst : passesOver (.loop count body.length span :: body) (i + 1) 0 = count := by
    simp [passesOver, Nat.add_comm 1, h]
  rw [rounds, Finset.prod_range_succ', hfirst, Nat.mul_comm, rounds]
  refine congrArg (count * ·) (Finset.prod_congr rfl ?_)
  intro j _
  simp only [passesOver, List.getElem?_cons_succ, Nat.add_right_comm _ 1 _,
    Nat.add_lt_add_iff_right]

end Rounds

/-! ## Totals -/

section Totals

variable (w : Statement → Nat) {code l₁ l₂ body : List Instr}

/-- What the place `i` adds to the total: nothing if a loop is there. -/
def share (code : List Instr) (i : Nat) : Nat :=
  match code[i]? with
  | some (.statement s) => rounds code i * w s
  | _ => 0

/-- The weights of all statements, each as often as it is carried out. -/
def total (code : List Instr) : Nat :=
  ∑ i ∈ Finset.range code.length, share w code i

theorem total_append (h : Nested l₁) (l₂ : List Instr) :
    total w (l₁ ++ l₂) = total w l₁ + total w l₂ := by
  rw [total, List.length_append, Finset.sum_range_add, total, total]
  congr 1
  · refine Finset.sum_congr rfl ?_
    intro i hi
    have hlt := Finset.mem_range.mp hi
    simp only [share, List.getElem?_append_left hlt, rounds_append_left hlt.le]
  · refine Finset.sum_congr rfl ?_
    intro i _
    simp only [share, List.getElem?_append_right (Nat.le_add_right _ _), Nat.add_sub_cancel_left,
      rounds_append_right h]

theorem total_statement (s : Statement) : total w [.statement s] = w s := by
  simp [total, share, rounds]

theorem total_loop (count : Nat) (span : Text.Span) (body : List Instr) :
    total w (.loop count body.length span :: body) = count * total w body := by
  -- the loop itself adds nothing; every place of its body adds what it did, `count` times
  have hfirst : share w (.loop count body.length span :: body) 0 = 0 := rfl
  rw [total, List.length_cons, Finset.sum_range_succ', hfirst, Nat.add_zero, total,
    Finset.mul_sum]
  refine Finset.sum_congr rfl ?_
  intro i hi
  simp only [share, List.getElem?_cons_succ, rounds_loop (Finset.mem_range.mp hi)]
  split
  · exact Nat.mul_assoc _ _ _
  · rfl

theorem total_eq_zero_iff :
    total w code = 0 ↔ ∀ i s, code[i]? = some (.statement s) → w s ≠ 0 → Skipped code i := by
  simp only [total, Finset.sum_eq_zero_iff, Finset.mem_range]
  constructor
  · intro h i s hs hw
    have hshare := h i (List.getElem?_eq_some_iff.mp hs).1
    simp only [share, hs, Nat.mul_eq_zero] at hshare
    exact rounds_eq_zero_iff.mp (hshare.resolve_right hw)
  · intro h i _
    unfold share
    split
    · rename_i s hs
      by_cases hw : w s = 0
      · rw [hw, Nat.mul_zero]
      · rw [rounds_eq_zero_iff.mpr (h i s hs hw), Nat.zero_mul]
    · rfl

/-- A run adds the total to what every statement adds its weight to. -/
theorem Block.run_total {w : Statement → Nat} {σ : Type} {act : σ → Statement → σ} {m : σ → Nat}
    (hact : ∀ e s, m (act e s) = m e + w s) (b : Block) (e : σ) :
    m (b.run act e) = m e + total w b.flatten := by
  induction b generalizing e with
  | done => rfl
  | statement s next ih =>
    have hflatten : (Block.statement s next).flatten = [.statement s] ++ next.flatten := rfl
    rw [hflatten, total_append w (.statement s), total_statement, Block.run, ih, hact,
      Nat.add_assoc]
  | loop count span body next ihb ihn =>
    have hflatten : (Block.loop count span body next).flatten =
        (.loop count body.flatten.length span :: body.flatten) ++ next.flatten := rfl
    -- every pass adds the body's total once more
    have hpasses : ∀ n e, m ((body.run act)^[n] e) = m e + n * total w body.flatten := by
      intro n
      induction n with
      | zero =>
        intro e
        simp
      | succ n ihp =>
        intro e
        rw [Function.iterate_succ_apply, ihp, ihb, Nat.succ_mul]
        omega
    rw [hflatten, total_append w (body.nested_flatten.loop count span), total_loop, Block.run, ihn,
      hpasses, Nat.add_assoc]

end Totals

/-! ## Problems and warnings -/

/-- How many problems come of a statement when it is carried out. -/
def Statement.complaints : Statement → Nat
  | .command _ => 0
  | .unknown _ _ | .stray _ _ => 1

/-- How many warnings come of a statement when it is carried out: one for every input of a command
that is missing or of no use. -/
def Statement.flaws (palette : Palette) : Statement → Nat
  | .command c => (List.range c.primitive.arity).countP (!c.isUsable palette ·)
  | .unknown _ _ | .stray _ _ => 0

theorem Statement.complaints_ne_zero_iff {s : Statement} :
    s.complaints ≠ 0 ↔ ∀ c, s ≠ .command c := by
  cases s <;> simp [complaints]

namespace Program

/-- How many problems a program has. -/
def problemCount (p : Program) : Nat :=
  total Statement.complaints p.code.toList + if p.fault = none then 0 else 1

/-- How many warnings a program has. -/
def warningCount (p : Program) (palette : Palette) : Nat :=
  total (Statement.flaws palette) p.code.toList

/-- A program has no problems if and only if all of it could be read and a loop without passes is
around everything that is not a command. -/
theorem problemCount_eq_zero_iff {p : Program} :
    p.problemCount = 0 ↔ p.fault = none ∧ ∀ (i : Nat) s, p.code.toList[i]? = some (.statement s) →
      (∀ c, s ≠ .command c) → Skipped p.code.toList i := by
  rw [problemCount, Nat.add_eq_zero_iff, total_eq_zero_iff, and_comm]
  simp only [Statement.complaints_ne_zero_iff, ite_eq_left_iff, Nat.one_ne_zero, imp_false,
    not_not]

end Program

namespace Execution

theorem size_problems_act (palette : Palette) (e : Execution) (s : Statement) :
    (e.act palette s).problems.size = e.problems.size + s.complaints := by
  cases s with
  | command c => exact congrArg Array.size (perform_diagnostics _ _).1
  | unknown | stray => exact Array.size_push _

theorem size_warnings_act (palette : Palette) (e : Execution) (s : Statement) :
    (e.act palette s).warnings.size = e.warnings.size + s.flaws palette := by
  cases s with
  | command c =>
    have hwarnings : (e.act palette (.command c)).warnings =
        e.warnings ++ (c.action palette).warnings := (perform_diagnostics _ _).2
    rw [hwarnings, ← Array.length_toList, Array.toList_appendList, List.length_append,
      Array.length_toList, c.length_warnings palette, Statement.flaws]
  | unknown | stray => rfl

/-- A run of a whole program adds its problems and warnings to those that there were. -/
theorem size_run (palette : Palette) (e : Execution) {p : Program} {b : Block}
    (hb : p.code.toList = b.flatten) :
    (e.run palette p).problems.size = e.problems.size + p.problemCount ∧
      (e.run palette p).warnings.size = e.warnings.size + p.warningCount palette := by
  have hproblems := b.run_total (m := fun e : Execution => e.problems.size)
    (size_problems_act palette) e
  have hwarnings := b.run_total (m := fun e : Execution => e.warnings.size)
    (size_warnings_act palette) e
  rw [run_eq_run_block palette e hb, Program.problemCount, Program.warningCount, hb,
    ← Nat.add_assoc, ← hproblems, ← hwarnings]
  cases p.fault with
  | none => exact ⟨rfl, rfl⟩
  | some q => exact ⟨Array.size_push _, rfl⟩

end Execution

theorem size_report (w : Workspace) (text : String) :
    (w.interpret text).report.problems.size = (Program.read text).problemCount ∧
      (w.interpret text).report.warnings.size = (Program.read text).warningCount w.palette := by
  rcases exists_block text with ⟨b, hb⟩
  rcases (Execution.start w.turtle w.path).size_run w.palette hb with ⟨hproblems, hwarnings⟩
  constructor
  · exact hproblems.trans (Nat.zero_add _)
  · exact hwarnings.trans (Nat.zero_add _)

namespace CommandLine

/-! ## Exit codes -/

/-- Every file asked for can be written, whatever its text is. -/
def Settings.Writable (s : Settings) (fs : FileSystem) : Prop :=
  ∀ path ∈ s.svg.toList ++ s.history.toList ++ s.plot.toList, ∀ text, fs.CanWrite path text

/-- No error is reported of files that can be written. -/
theorem Settings.Writable.writeAll_eq {s : Settings} {fs : FileSystem} (h : s.Writable fs)
    (x : Session) : writeAll fs (x.outputs s) = (fs.after (x.outputs s), none) := by
  refine writeAll_eq_after (Session.forall_mem_outputs.mpr ⟨?_, ?_, ?_⟩)
  all_goals
    intro path hpath
    exact h path (by simp [Option.mem_def.mp hpath]) _

/-- A job that runs a text from a file and can write its files fails only by the text's problems. -/
theorem Job.exists_run_eq {s : Settings} {path text : String} {fs : FileSystem}
    (hsize : 0 < s.width ∧ 0 < s.height) (hread : fs.read path = .ok text.toUTF8)
    (hwritable : s.Writable fs) (stdin : ByteArray) :
    ∃ fs' stdout, Job.run ⟨s, .run path⟩ fs stdin =
      .of fs' stdout (failure? ((Session.fresh s).workspace.interpret text).report) := by
  have hrun := run_eq_conclude (j := ⟨s, .run path⟩) hsize (Task.texts?_run hread stdin)
  have hproblems : (Task.run path).problems? ((Session.fresh s).exchanges [text]) =
      failure? ((Session.fresh s).workspace.interpret text).report := by
    simp only [Session.exchanges, Task.problems?, List.findSome?_cons, List.findSome?_nil,
      Session.report_enter]
    cases failure? ((Session.fresh s).workspace.interpret text).report <;> rfl
  dsimp only at hrun
  simp only [hrun, conclude, hwritable.writeAll_eq, Option.none_or, hproblems]
  exact ⟨_, _, rfl⟩

end CommandLine

open CommandLine in
/-- Every problem and every warning comes as often as the statement that it is about is carried out,
which is as often as the loops around it say, and a fault in reading is one more problem. So it is
known from a program alone how a job that runs it ends, if its files can be read and written: with
success if and only if nothing but commands is ever carried out and all of the program could be
read, and else with a complaint that has the number of problems in it. -/
theorem diagnostics_counted (w : Workspace) (text : String) :
    (w.interpret text).report.problems.size = (Program.read text).problemCount ∧
      (w.interpret text).report.warnings.size = (Program.read text).warningCount w.palette ∧
      ∀ args s path fs stdin, Request.read args = .ok (.job ⟨s, .run path⟩) →
        0 < s.width ∧ 0 < s.height → fs.read path = .ok text.toUTF8 → s.Writable fs →
        ∃ r, execute args fs stdin = .ok r ∧
          (r.exitCode = 0 ↔ (Program.read text).fault = none ∧
            ∀ (i : Nat) st, (Program.read text).code.toList[i]? = some (.statement st) →
              (∀ c, st ≠ .command c) → Skipped (Program.read text).code.toList i) ∧
          (r.exitCode ≠ 0 → r.exitCode = 1 ∧ r.stderr =
            "Error: " ++ (Nat.repr (Program.read text).problemCount ++
              " error(s) while running the program") ++ "\n") := by
  rcases size_report w text with ⟨hproblems, hwarnings⟩
  refine ⟨hproblems, hwarnings, ?_⟩
  intro args s path fs stdin hargs hsize hread hwritable
  rcases Job.exists_run_eq hsize hread hwritable stdin with ⟨fs', stdout, hrun⟩
  have hcount := (size_report (Session.fresh s).workspace text).1
  refine ⟨Job.run ⟨s, .run path⟩ fs stdin, by simp only [execute, hargs], ?_, ?_⟩
  · rw [hrun, Result.exitCode_of_eq_zero_iff, ← Program.problemCount_eq_zero_iff, ← hcount]
    simp [failure?]
  · intro hfails
    rw [hrun] at hfails ⊢
    rw [Ne, Result.exitCode_of_eq_zero_iff] at hfails
    have hfailure : failure? ((Session.fresh s).workspace.interpret text).report =
        some (.problems (Program.read text).problemCount) := by
      unfold failure? at hfails ⊢
      split_ifs at hfails ⊢
      · exact absurd rfl hfails
      · rw [hcount]
    rw [hfailure]
    exact ⟨rfl, rfl⟩

open CommandLine in
/-- Of two unknown words one comes in each of three passes, and the other in a loop that makes
none. -/
theorem diagnostics_counted_nested :
    let text := "repeat 3 [repeat 0 [x] y]"
    let s : Settings := ⟨1200, 900, .named, none, none, none⟩
    let fs : FileSystem := ⟨[(["p"], text.toUTF8)]⟩
    Request.read ["run", "p"] = .ok (.job ⟨s, .run "p"⟩) ∧ (0 < s.width ∧ 0 < s.height) ∧
      fs.read "p" = .ok text.toUTF8 ∧ s.Writable fs ∧
      ∃ r, execute ["run", "p"] fs "".toUTF8 = .ok r ∧ r.exitCode = 1 ∧
        r.stderr = "Error: 3 error(s) while running the program\n" := by
  intro text s fs
  have hprogram : Program.read text = ⟨#[.loop 3 3 ⟨0, 6, 1, 1⟩, .loop 0 1 ⟨10, 6, 1, 11⟩,
      .statement (.unknown "X" ⟨20, 1, 1, 21⟩), .statement (.unknown "Y" ⟨23, 1, 1, 24⟩)],
      none⟩ := by cbv
  have hargs : Request.read ["run", "p"] = .ok (.job ⟨s, .run "p"⟩) := by decide +kernel
  have hsize : 0 < s.width ∧ 0 < s.height := by decide +kernel
  have hread : fs.read "p" = .ok text.toUTF8 := by cbv
  have hwritable : s.Writable fs := fun path hpath => absurd hpath List.not_mem_nil
  refine ⟨hargs, hsize, hread, hwritable, ?_⟩
  rcases diagnostics_counted (.new {} NamedPalette.standard.toPalette) text with ⟨-, -, hjobs⟩
  rcases hjobs _ s "p" fs "".toUTF8 hargs hsize hread hwritable with ⟨r, hr, hzero, hfails⟩
  rw [hprogram] at hzero hfails
  have hne : r.exitCode ≠ 0 := by
    intro h
    have hskipped := (hzero.mp h).2 3 (.unknown "Y" ⟨23, 1, 1, 24⟩) rfl (by simp)
    exact absurd (rounds_eq_zero_iff.mpr hskipped) (by decide)
  rcases hfails hne with ⟨hone, hstderr⟩
  exact ⟨r, hr, hone, hstderr.trans (by decide +kernel)⟩

end TurtleGraphics
