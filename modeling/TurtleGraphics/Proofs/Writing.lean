import TurtleGraphics.CommandLine.Job
import TurtleGraphics.Proofs.Files

namespace TurtleGraphics.CommandLine

/-! # What writing files does

A text arrives in its file as if it had been handed over at once. Only the error that is reported
depends on how it was handed over.

* `FileSystem.write_of_target?`: what is in a file after it was written, and which error comes of it.
* `FileSystem.CanWrite`: there is a place for a file and room for a text in it.
* `Buffer.Holds`: a buffer loses nothing of a text, and keeps back no more than its capacity. Every
  piece that is added preserves this, and so do all of them (`Buffer.holds_ofPieces`).
* `FileSystem.after`: some files were written one after the other. What is under a path afterwards is
  what was written there last (`FileSystem.file?_after`), or else what was there before
  (`FileSystem.file?_after_of_ne`).
* `exists_writeAll_eq`: files are written up to the first that cannot be.
-/

/-! ## One file -/

namespace FileSystem

theorem append_put (fs : FileSystem) (path : List String) (a b : ByteArray) :
    (fs.put path a).append path b =
      (fs.put path (fs.surroundings.take path (a ++ b)).1,
        (fs.surroundings.take path (a ++ b)).2) := by
  simp only [append, file?_put_self, Option.getD_some, surroundings_put, put_put]

/-- Texts are appended one after the other as if they were one. -/
theorem appendAll_put (fs : FileSystem) {path : List String} {a : ByteArray}
    (ha : (fs.surroundings.take path a).2 = none) (texts : List String) :
    (fs.put path a).appendAll path texts =
      (fs.put path (fs.surroundings.take path (a ++ (String.join texts).toUTF8)).1,
        (fs.surroundings.take path (a ++ (String.join texts).toUTF8)).2) := by
  induction texts generalizing a with
  | nil =>
    have hempty : a ++ (String.join []).toUTF8 = a := ByteArray.append_empty
    rw [hempty, Surroundings.take_of_complete ha]
    rfl
  | cons text texts ih =>
    have hbytes : a ++ (String.join (text :: texts)).toUTF8 =
        (a ++ text.toUTF8) ++ (String.join texts).toUTF8 := by
      rw [String.join_cons, String.toUTF8_eq_toByteArray, String.toByteArray_append,
        ByteArray.append_assoc]
      rfl
    rw [appendAll, append_put, hbytes]
    cases herror : (fs.surroundings.take path (a ++ text.toUTF8)).2 with
    | none =>
      rw [Surroundings.take_of_complete herror]
      exact ih herror
    | some e => rw [Surroundings.take_append_of_error herror, herror]

/-- What is in a file after it was written, and the error that is reported. -/
theorem write_of_target? {fs : FileSystem} {o : Output} {target : List String}
    (h : fs.target? o.path = some target) :
    fs.write o = (fs.put target (fs.surroundings.take target o.buffer.text.toUTF8).1,
      (fs.surroundings.take target o.buffer.handedOver.toUTF8).2) := by
  have hempty : (fs.surroundings.take target .empty).2 = none := Surroundings.complete_empty
  have hblocks := fs.appendAll_put hempty o.buffer.blocks.toList
  rw [ByteArray.empty_append, ← Buffer.handedOver] at hblocks
  have htext : o.buffer.text.toUTF8 = o.buffer.handedOver.toUTF8 ++ o.buffer.kept.toUTF8 :=
    String.toByteArray_append
  rw [write, create_of_target? h]
  dsimp only
  rw [hblocks, htext]
  cases herror : (fs.surroundings.take target o.buffer.handedOver.toUTF8).2 with
  | none =>
    dsimp only
    rw [Surroundings.take_of_complete herror, append_put]
  | some e => rw [Surroundings.take_append_of_error herror]

theorem write_of_target?_eq_none {fs : FileSystem} {o : Output} (h : fs.target? o.path = none) :
    ∃ e, fs.write o = (fs, some e) := by
  unfold target? at h
  unfold write
  cases hcreate : fs.create o.path with
  | error e => exact ⟨e, rfl⟩
  | ok made => simp [hcreate, Except.toOption] at h

/-- A file in its place or none: the directories stay as they are. -/
theorem sameDirectories_write (fs : FileSystem) (o : Output) :
    SameDirectories fs (fs.write o).1 := by
  cases htarget : fs.target? o.path with
  | none =>
    rcases write_of_target?_eq_none htarget with ⟨e, hwrite⟩
    rw [hwrite]
    exact .refl fs
  | some target =>
    rw [write_of_target? htarget]
    exact (isSlot_of_target? htarget).put _

/-- There is a place for a file under the path, and room for the text in it. -/
def CanWrite (fs : FileSystem) (path text : String) : Prop :=
  ∃ target, fs.target? path = some target ∧ (fs.surroundings.take target text.toUTF8).2 = none

/-- What can be written was not changed by what was written. -/
theorem SameDirectories.canWrite_iff {fs fs' : FileSystem} (h : SameDirectories fs fs')
    (path text : String) : fs'.CanWrite path text ↔ fs.CanWrite path text := by
  rw [CanWrite, CanWrite, h.target?_eq, h.surroundings]

/-- An error is reported if what was handed over cannot be written. -/
theorem error_write_eq_none_iff {fs : FileSystem} {o : Output} :
    (fs.write o).2 = none ↔ fs.CanWrite o.path o.buffer.handedOver := by
  cases htarget : fs.target? o.path with
  | none =>
    rcases write_of_target?_eq_none htarget with ⟨e, hwrite⟩
    simp [CanWrite, hwrite, htarget]
  | some target => simp [CanWrite, write_of_target? htarget, htarget]

theorem CanWrite.handedOver {fs : FileSystem} {path : String} {b : Buffer}
    (h : fs.CanWrite path b.text) : fs.CanWrite path b.handedOver := by
  rcases h with ⟨target, htarget, hroom⟩
  have htext : b.text.toUTF8 = b.handedOver.toUTF8 ++ b.kept.toUTF8 := String.toByteArray_append
  exact ⟨target, htarget, Surroundings.complete_of_append (htext ▸ hroom)⟩

end FileSystem

/-! ## Buffers -/

namespace Buffer

@[simp] theorem handedOver_whole (text : String) : (whole text).handedOver = text := by
  simp [handedOver, whole]

@[simp] theorem text_whole (text : String) : (whole text).text = text := by
  rw [Buffer.text, handedOver_whole]
  exact String.append_empty

/-- The buffer has lost nothing of a text, and keeps back no more than its capacity. -/
structure Holds (b : Buffer) (text : String) : Prop where
  text_eq : b.text = text
  kept : b.kept.utf8ByteSize ≤ capacity

theorem Holds.flush {b : Buffer} {text : String} (h : b.Holds text) : b.flush.Holds text where
  text_eq := by
    rw [← h.text_eq]
    simp [Buffer.flush, Buffer.text, handedOver, String.join_append]
  kept := Nat.zero_le _

theorem Holds.push {b : Buffer} {text : String} (h : b.Holds text) (hkept : b.kept = "")
    (piece : String) : Buffer.Holds { b with blocks := b.blocks.push piece } (text ++ piece) where
  text_eq := by
    rw [← h.text_eq]
    simp [Buffer.text, handedOver, String.join_append, hkept]
  kept := h.kept

theorem Holds.keep {b : Buffer} {text piece : String} (h : b.Holds text)
    (hroom : b.kept.utf8ByteSize + piece.utf8ByteSize ≤ capacity) :
    Buffer.Holds { b with kept := b.kept ++ piece } (text ++ piece) where
  text_eq := by
    rw [← h.text_eq]
    exact String.append_assoc.symm
  kept := by rwa [String.utf8ByteSize_append]

theorem Holds.add {b : Buffer} {text : String} (h : b.Holds text) (piece : String) :
    (b.add piece).Holds (text ++ piece) := by
  unfold Buffer.add
  dsimp only
  by_cases hover : capacity < b.kept.utf8ByteSize + piece.utf8ByteSize
  · rw [if_pos hover]
    split_ifs with hbig
    · exact h.flush.push rfl piece
    · refine h.flush.keep ?_
      have hflushed : b.flush.kept.utf8ByteSize = 0 := rfl
      omega
  · rw [if_neg hover]
    split_ifs with hbig
    · -- the piece fills the buffer, and yet there was room for it
      have hempty : b.kept = "" := String.utf8ByteSize_eq_zero_iff.mp (by omega)
      exact h.push hempty piece
    · exact h.keep (by omega)

theorem Holds.addAll {b : Buffer} {text : String} (h : b.Holds text) (pieces : List String) :
    (pieces.foldl Buffer.add b).Holds (text ++ String.join pieces) := by
  induction pieces generalizing b text with
  | nil => simpa using h
  | cons piece pieces ih =>
    rw [String.join_cons, ← String.append_assoc]
    exact ih (h.add piece)

theorem holds_ofPieces (pieces : List String) : (ofPieces pieces).Holds (String.join pieces) := by
  have hempty : empty.Holds "" := ⟨rfl, Nat.zero_le _⟩
  have hall := hempty.addAll pieces
  rwa [String.empty_append] at hall

/-- If what is handed over can be written, but not the whole text, then no more is missing than the
buffer can keep back. -/
theorem Holds.exists_limit {b : Buffer} {text path : String} (h : b.Holds text) {fs : FileSystem}
    (hover : fs.CanWrite path b.handedOver) (hlost : ¬ fs.CanWrite path text) :
    ∃ target limit, fs.target? path = some target ∧
      fs.surroundings.limit target = some limit ∧
        (fs.surroundings.take target text.toUTF8).1 = text.toUTF8.extract 0 limit.size ∧
          limit.size < text.utf8ByteSize ∧ text.utf8ByteSize ≤ limit.size + capacity := by
  rcases hover with ⟨target, htarget, hroom⟩
  have hsize : text.utf8ByteSize = b.handedOver.toUTF8.size + b.kept.utf8ByteSize := by
    rw [← h.text_eq]
    exact String.utf8ByteSize_append
  cases hfull : (fs.surroundings.take target text.toUTF8).2 with
  | none => exact absurd ⟨target, htarget, hfull⟩ hlost
  | some e =>
    rcases Surroundings.exists_limit_of_error hfull with ⟨limit, hlimit, hless, hcut⟩
    have hover := Surroundings.size_le_of_complete hroom hlimit
    have hkept := h.kept
    exact ⟨target, limit, htarget, hlimit, hcut, hless, by omega⟩

end Buffer

/-! ## Several files -/

namespace FileSystem

/-- The files after writing some more, whatever errors came of it. -/
def after (fs : FileSystem) (os : List Output) : FileSystem :=
  os.foldl (fun fs o => (fs.write o).1) fs

theorem after_cons (fs : FileSystem) (o : Output) (os : List Output) :
    fs.after (o :: os) = (fs.write o).1.after os := rfl

theorem after_append (fs : FileSystem) (os os' : List Output) :
    fs.after (os ++ os') = (fs.after os).after os' :=
  List.foldl_append

theorem sameDirectories_after (fs : FileSystem) (os : List Output) :
    SameDirectories fs (fs.after os) := by
  induction os generalizing fs with
  | nil => exact .refl fs
  | cons o os ih => exact (fs.sameDirectories_write o).trans (ih (fs.write o).1)

theorem file?_write_of_ne {fs : FileSystem} {o : Output} {path : List String}
    (h : fs.target? o.path ≠ some path) : (fs.write o).1.file? path = fs.file? path := by
  cases htarget : fs.target? o.path with
  | none =>
    rcases write_of_target?_eq_none htarget with ⟨e, hwrite⟩
    rw [hwrite]
  | some target =>
    rw [write_of_target? htarget]
    refine file?_put_of_ne fs ?_ _
    rintro rfl
    exact h htarget

/-- What is under the path of none of the files stays as it was. -/
theorem file?_after_of_ne {fs : FileSystem} {os : List Output} {path : List String}
    (h : ∀ o ∈ os, fs.target? o.path ≠ some path) : (fs.after os).file? path = fs.file? path := by
  induction os generalizing fs with
  | nil => rfl
  | cons o os ih =>
    rcases List.forall_mem_cons.mp h with ⟨hfirst, hrest⟩
    have hdirectories := fs.sameDirectories_write o
    calc
      (fs.after (o :: os)).file? path = (fs.write o).1.file? path :=
        ih fun o' ho' => hdirectories.target?_eq o'.path ▸ hrest o' ho'
      _ = fs.file? path := file?_write_of_ne hfirst

/-- What was written is there, as far as there was room for it, unless it was written over. -/
theorem file?_after {fs : FileSystem} {before rest : List Output} {o : Output}
    {target : List String} (htarget : fs.target? o.path = some target)
    (hrest : ∀ o' ∈ rest, fs.target? o'.path ≠ some target) :
    (fs.after (before ++ o :: rest)).file? target =
      some (fs.surroundings.take target o.buffer.text.toUTF8).1 := by
  -- what was written before does not move the places of files, and what comes after leaves this one
  have hbefore := fs.sameDirectories_after before
  have htarget' : (fs.after before).target? o.path = some target :=
    (hbefore.target?_eq o.path).trans htarget
  have hplaces := hbefore.trans ((fs.after before).sameDirectories_write o)
  have hlast : (fs.after (before ++ o :: rest)).file? target =
      ((fs.after before).write o).1.file? target := by
    rw [after_append, after_cons]
    refine file?_after_of_ne ?_
    intro o' ho'
    rw [hplaces.target?_eq]
    exact hrest o' ho'
  rw [hlast, write_of_target? htarget', file?_put_self, hbefore.surroundings]

end FileSystem

/-- Of some files, those in `done` can be written and were, and then there were none left or one that
cannot be written. This one was begun. -/
structure Progress (fs : FileSystem) (os done left : List Output) (fs' : FileSystem) : Prop where
  outputs_eq : os = done ++ left
  complete : ∀ o ∈ done, fs.CanWrite o.path o.buffer.text
  stops : ∀ o ∈ left.head?, ¬ fs.CanWrite o.path o.buffer.text
  files_eq : fs' = fs.after (done ++ left.head?.toList)

theorem Progress.cons {fs fs' : FileSystem} {o : Output} {os done left : List Output}
    (ho : fs.CanWrite o.path o.buffer.text) (h : Progress (fs.write o).1 os done left fs') :
    Progress fs (o :: os) (o :: done) left fs' where
  outputs_eq := by rw [h.outputs_eq, List.cons_append]
  complete := by
    have hdirectories := fs.sameDirectories_write o
    refine List.forall_mem_cons.mpr ⟨ho, fun o' ho' => ?_⟩
    exact (hdirectories.canWrite_iff _ _).mp (h.complete o' ho')
  stops o' ho' := by
    have hdirectories := fs.sameDirectories_write o
    rw [← hdirectories.canWrite_iff]
    exact h.stops o' ho'
  files_eq := h.files_eq

/-- If what is handed over of the file that cannot be written can be written, then so can what is handed
over of all files. -/
theorem Progress.handedOver {fs fs' : FileSystem} {o : Output} {os done : List Output}
    (h : Progress fs os done [o] fs') (ho : fs.CanWrite o.path o.buffer.handedOver) :
    (∀ o' ∈ os, fs.CanWrite o'.path o'.buffer.handedOver) ∧
      ¬ ∀ o' ∈ os, fs.CanWrite o'.path o'.buffer.text := by
  rw [h.outputs_eq]
  constructor
  · intro o' ho'
    rcases List.mem_append.mp ho' with ho' | ho'
    · exact (h.complete o' ho').handedOver
    · rwa [List.mem_singleton.mp ho']
  · intro hall
    exact h.stops o rfl (hall o (List.mem_append_right _ List.mem_cons_self))

theorem writeAll_of_none {fs : FileSystem} {o : Output} (h : (fs.write o).2 = none)
    (os : List Output) : writeAll fs (o :: os) = writeAll (fs.write o).1 os := by
  cases hwrite : fs.write o with
  | mk fs' error =>
    obtain rfl : error = none := by simpa only [hwrite] using h
    simp only [writeAll, hwrite]

theorem writeAll_of_some {fs : FileSystem} {o : Output} {e : OsError}
    (h : (fs.write o).2 = some e) (os : List Output) :
    writeAll fs (o :: os) = ((fs.write o).1, some (.unwritableFile e)) := by
  cases hwrite : fs.write o with
  | mk fs' error =>
    obtain rfl : error = some e := by simpa only [hwrite] using h
    simp only [writeAll, hwrite]

/-- If all that is handed over can be written, then no error is reported. -/
theorem writeAll_eq_after {fs : FileSystem} {os : List Output}
    (h : ∀ o ∈ os, fs.CanWrite o.path o.buffer.handedOver) : writeAll fs os = (fs.after os, none) := by
  induction os generalizing fs with
  | nil => rfl
  | cons o os ih =>
    rcases List.forall_mem_cons.mp h with ⟨hfirst, hrest⟩
    have hdirectories := fs.sameDirectories_write o
    rw [writeAll_of_none (FileSystem.error_write_eq_none_iff.mpr hfirst), FileSystem.after_cons]
    exact ih fun o' ho' => (hdirectories.canWrite_iff _ _).mpr (hrest o' ho')

/-- Files are written up to the first that cannot be. If none but the last goes through a buffer, then
an error is reported unless all can be written, or all of what is handed over before the last buffer
is given up. -/
theorem exists_progress (fs : FileSystem) {os : List Output}
    (hos : ∀ o ∈ os.dropLast, o.buffer.kept = "") :
    ∃ done left, Progress fs os done left (writeAll fs os).1 ∧
      ((writeAll fs os).2 = none ↔
        left = [] ∨ ∃ o, left = [o] ∧ fs.CanWrite o.path o.buffer.handedOver) := by
  induction os generalizing fs with
  | nil => exact ⟨[], [], ⟨rfl, by simp, by simp, rfl⟩, by simp [writeAll]⟩
  | cons o os ih =>
    by_cases ho : fs.CanWrite o.path o.buffer.text
    · have hdirectories := fs.sameDirectories_write o
      have hrest : ∀ o' ∈ os.dropLast, o'.buffer.kept = "" := by
        intro o' ho'
        cases os with
        | nil => cases ho'
        | cons => exact hos o' (List.mem_cons_of_mem _ ho')
      rcases ih (fs.write o).1 hrest with ⟨done, left, hprogress, hleft⟩
      rw [writeAll_of_none (FileSystem.error_write_eq_none_iff.mpr ho.handedOver)]
      refine ⟨o :: done, left, hprogress.cons ho, ?_⟩
      simpa only [hdirectories.canWrite_iff] using hleft
    · cases herror : (fs.write o).2 with
      | some e =>
        have hover : ¬ fs.CanWrite o.path o.buffer.handedOver := by
          simp [← FileSystem.error_write_eq_none_iff, herror]
        rw [writeAll_of_some herror]
        exact ⟨[], o :: os, ⟨rfl, by simp, by simpa using ho, rfl⟩, by simp [hover]⟩
      | none =>
        -- what did not have room was kept back, and so this is the last file
        have hover := FileSystem.error_write_eq_none_iff.mp herror
        have hkept : o.buffer.kept ≠ "" := by
          intro hkept
          exact ho (by rwa [Buffer.text, hkept, String.append_empty])
        obtain rfl : os = [] := by
          by_contra hne
          have hmem : o ∈ (o :: os).dropLast := by
            rw [List.dropLast_cons_of_ne_nil hne]
            exact List.mem_cons_self
          exact hkept (hos o hmem)
        rw [writeAll_of_none herror]
        exact ⟨[], [o], ⟨rfl, by simp, by simpa using ho, rfl⟩, by simp [writeAll, hover]⟩

/-! ## The files of a session -/

theorem join_numeralPieces (n : Int) : String.join (numeralPieces n) = toString n := by
  cases n <;> simp [numeralPieces] <;> rfl

theorem join_pieces (op : PlotOp Float) : String.join op.pieces = op.text ++ "\n" := by
  cases op <;> simp [PlotOp.pieces, PlotOp.text, String.join_append, join_numeralPieces, String.append_assoc]

theorem join_flatMap_pieces (ops : List (PlotOp Float)) :
    String.join (ops.flatMap PlotOp.pieces) = plotText ops := by
  induction ops with
  | nil => rfl
  | cons op ops ih =>
    rw [List.flatMap_cons, String.join_append, join_pieces, ih, plotText, plotText, List.map_cons,
      String.join_cons]

namespace Session

theorem holds_plotterBuffer (x : Session) : x.plotterBuffer.Holds x.plotterCommands := by
  have hpieces := Buffer.holds_ofPieces (x.plotterOps.flatMap PlotOp.pieces)
  rwa [join_flatMap_pieces] at hpieces

theorem files_eq (x : Session) (s : Settings) :
    x.files s = (s.svg.map fun path => (path, x.drawing)).toList
      ++ (s.history.map fun path => (path, x.report)).toList
      ++ (s.plot.map fun path => (path, x.plotterCommands)).toList := by
  cases hsvg : s.svg <;> cases hhistory : s.history <;> cases hplot : s.plot <;>
    simp [files, outputs, Output.named, hsvg, hhistory, hplot, x.holds_plotterBuffer.text_eq]

theorem outputs_of_plot (x : Session) {s : Settings} {path : String} (h : s.plot = some path) :
    x.outputs s = (s.svg.map fun path => ⟨path, .whole x.drawing⟩).toList
      ++ (s.history.map fun path => ⟨path, .whole x.report⟩).toList
      ++ [⟨path, x.plotterBuffer⟩] := by
  rw [outputs, h]
  rfl

theorem forall_mem_outputs {x : Session} {s : Settings} {P : Output → Prop} :
    (∀ o ∈ x.outputs s, P o) ↔ (∀ path ∈ s.svg, P ⟨path, .whole x.drawing⟩) ∧
      (∀ path ∈ s.history, P ⟨path, .whole x.report⟩) ∧
        ∀ path ∈ s.plot, P ⟨path, x.plotterBuffer⟩ := by
  cases hsvg : s.svg <;> cases hhistory : s.history <;> cases hplot : s.plot <;>
    simp [outputs, hsvg, hhistory, hplot]

/-- Only the last file goes through a buffer. -/
theorem kept_eq_empty (x : Session) (s : Settings) :
    ∀ o ∈ (x.outputs s).dropLast, o.buffer.kept = "" := by
  cases hsvg : s.svg <;> cases hhistory : s.history <;> cases hplot : s.plot <;>
    simp [outputs, hsvg, hhistory, hplot, Buffer.whole]

end Session

end TurtleGraphics.CommandLine
