import TurtleGraphics.Workspace
import TurtleGraphics.Proofs.Reading
import TurtleGraphics.Proofs.Scanning

namespace TurtleGraphics

open Text (Token tokens takeBytes? byteLength)

/-! # Texts with a fault

A text that breaks the rules is carried out up to the point where what is kept of it ends, as if
the text ended there; only the complaint is added.

* `Draft.CutsAt` tells the token at that point, and `fault_cuts_text` says that the text before it
  is read without a fault and as the same program.
* `interpret_faulty`: what running such a text comes to.
-/

theorem takeBytes?_byteLength (front back : List Char) :
    takeBytes? (byteLength front) (front ++ back) = some front := by
  induction front with
  | nil => cases back <;> rfl
  | cons c front ih =>
    have hpos : c.utf8Size ≠ 0 := Nat.ne_of_gt c.utf8Size_pos
    simp [takeBytes?, hpos, ih]

/-- The text before the token at which a faulty text is cut has no fault and is the same
program. -/
theorem fault_cuts_text {text : String} (h : (Program.read text).fault ≠ none) :
    ∃ t front, t ∈ tokens text ∧ (Draft.start (tokens text)).last.CutsAt t ∧
      takeBytes? t.span.offset text.toList = some front ∧
      Program.read (String.ofList front) = ⟨(Program.read text).code, none⟩ := by
  obtain ⟨read, rest, b, htokens, hread, hcode, hfault, hcut⟩ := Draft.read_sentence (tokens text)
  have hrest : rest ≠ [] := fun hnil => h (hfault.mpr hnil)
  obtain ⟨t, after, rfl⟩ := List.exists_cons_of_ne_nil hrest
  have hlexes : Text.Lexes .start text.toList (read ++ t :: after) := by
    rw [← htokens]
    exact Text.lexes_tokensAt .start text.toList
  obtain ⟨front, back, htext, hoffset, hfront⟩ := hlexes.split_at
  have hbefore : tokens (String.ofList front) = read := by
    rw [Text.tokens_eq_tokensAt, String.toList_ofList, hfront.tokensAt_eq]
  refine ⟨t, front, by simp [htokens], hcut t rfl, ?_, ?_⟩
  · have hlength : t.span.offset = byteLength front := by
      rw [hoffset]
      exact Nat.zero_add _
    rw [htext, hlength, takeBytes?_byteLength]
  · rw [← hbefore] at hread
    rw [hread.read_eq]
    exact congrArg (Program.mk · none) hcode.symm

/-- Every fault of a text is a breach of the rules by which programs are built. -/
theorem fault_malformed {text : String} {p : Problem} (h : (Program.read text).fault = some p) :
    ∃ fault span, p = .malformed fault span := by
  obtain ⟨fault, hstops, hrun⟩ := Draft.exists_stops (Draft.start (tokens text))
  rw [Program.read, hrun, Draft.finish_fault] at h
  exact hstops.malformed h

/-- Running `text` comes to what running `front` comes to, with the complaint `p` after it. -/
structure Workspace.ComplainsAfter (w : Workspace) (text front : String) (p : Problem) : Prop where
  workspace : (w.interpret text).workspace = (w.interpret front).workspace
  calls : (w.interpret text).calls = (w.interpret front).calls
  report : (w.interpret text).report =
    { (w.interpret front).report with problems := (w.interpret front).report.problems.push p }

/-- A text with a fault does what the part of it before the cut does, and the report has the fault
as one more problem at the end. The cut is at the token that begins the outermost loop still open
where the reading stops, or else at the first token of the statement there; so nothing of an
unfinished loop is carried out. -/
theorem interpret_faulty (w : Workspace) (text : String) (p : Problem)
    (h : (Program.read text).fault = some p) :
    (∃ fault span, p = .malformed fault span) ∧
      ∃ t front, t ∈ tokens text ∧ (Draft.start (tokens text)).last.CutsAt t ∧
        takeBytes? t.span.offset text.toList = some front ∧
        Program.read (String.ofList front) = ⟨(Program.read text).code, none⟩ ∧
        w.ComplainsAfter text (String.ofList front) p := by
  have hfault : (Program.read text).fault ≠ none := by simp [h]
  obtain ⟨t, front, hmem, hcuts, htake, hread⟩ := fault_cuts_text hfault
  have hrun : ∀ e : Execution, e.run w.palette (Program.read text) =
      (e.run w.palette (Program.read (String.ofList front))).complain p := by
    intro e
    rw [hread]
    simp [Execution.run, h]
  refine ⟨fault_malformed h, t, front, hmem, hcuts, htake, hread, ?_⟩
  constructor
  all_goals
    unfold Workspace.interpret
    rw [hrun]
    rfl

/-- The loop that is not finished is left out with the finished loop in it. -/
theorem interpret_faulty_open_loop :
    (Program.read "fd 10 repeat 2 [fd 5 repeat 3 [rt 1] fd 5").fault =
        some (.malformed .unmatchedOpen ⟨15, 1, 1, 16⟩) ∧
      (Workspace.new {} NamedPalette.standard.toPalette).ComplainsAfter
        "fd 10 repeat 2 [fd 5 repeat 3 [rt 1] fd 5" "fd 10 "
        (.malformed .unmatchedOpen ⟨15, 1, 1, 16⟩) := by
  have hfault : (Program.read "fd 10 repeat 2 [fd 5 repeat 3 [rt 1] fd 5").fault =
      some (.malformed .unmatchedOpen ⟨15, 1, 1, 16⟩) := by cbv
  obtain ⟨-, t, front, -, hcuts, htake, -, hruns⟩ :=
    interpret_faulty (Workspace.new {} NamedPalette.standard.toPalette) _ _ hfault
  -- the outermost open loop is the second instruction, and begins at the seventh byte
  have hopened : (Draft.start (tokens "fd 10 repeat 2 [fd 5 repeat 3 [rt 1] fd 5")).last.outermost?
      = some ⟨1, ⟨"[", ⟨15, 1, 1, 16⟩⟩⟩ := by cbv
  have hloop : (Draft.start (tokens "fd 10 repeat 2 [fd 5 repeat 3 [rt 1] fd 5")).last.code[1]?
      = some (.loop 2 0 ⟨6, 6, 1, 7⟩) := by cbv
  have hspan : t.span = ⟨6, 6, 1, 7⟩ := by
    rw [Draft.CutsAt, hopened] at hcuts
    obtain ⟨-, count, hcode⟩ := hcuts
    rw [hloop, Option.some.injEq, Instr.loop.injEq] at hcode
    exact hcode.2.2.symm
  have hfront : front = "fd 10 ".toList := by
    rw [hspan] at htake
    exact Option.some_inj.mp (htake.symm.trans (by decide))
  rw [hfront, String.ofList_toList] at hruns
  exact ⟨hfault, hruns⟩

end TurtleGraphics
