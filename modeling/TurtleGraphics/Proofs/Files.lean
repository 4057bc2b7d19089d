import Mathlib
import TurtleGraphics.CommandLine.FileSystem

namespace TurtleGraphics.CommandLine

/-! # Files in their places

A file that is put in its place changes nothing else.

* `Surroundings.take`: what a file takes of a content. Once it is full, more content changes nothing
  (`Surroundings.take_append_of_error`).
* `FileSystem.target?`: the path at which a file is written. It depends on the surroundings and the
  directories alone (`SameDirectories.target?_eq`).
* `FileSystem.IsSlot`: a file can be under a path. Putting one there leaves the directories as they
  are (`IsSlot.put`), so that whatever was written before, every file is written in the same place.
-/

/-! ## What a file takes -/

namespace Surroundings

variable {s : Surroundings} {path : List String} {a : ByteArray}

theorem take_of_complete (h : (s.take path a).2 = none) : s.take path a = (a, none) := by
  unfold take at h ⊢
  split at h
  · rfl
  · split_ifs at h ⊢
    rfl

/-- A file that is full takes no more. -/
theorem take_append_of_error {e : OsError} (h : (s.take path a).2 = some e) (b : ByteArray) :
    s.take path (a ++ b) = s.take path a := by
  unfold take at h ⊢
  split at h
  · cases h
  · rename_i limit _
    split_ifs at h with hfull
    have hrest : limit.size - a.size = 0 := by omega
    rw [if_pos (by rw [ByteArray.size_append]; omega), if_pos hfull, ByteArray.extract_append, hrest]
    simp

theorem complete_of_append {b : ByteArray} (h : (s.take path (a ++ b)).2 = none) :
    (s.take path a).2 = none := by
  cases herror : (s.take path a).2 with
  | none => rfl
  | some e =>
    rw [take_append_of_error herror, herror] at h
    cases h

theorem complete_empty : (s.take path .empty).2 = none := by
  unfold take
  split
  · rfl
  · simp

theorem size_le_of_complete {limit : Limit} (h : (s.take path a).2 = none)
    (hlimit : s.limit path = some limit) : a.size ≤ limit.size := by
  simp only [take, hlimit] at h
  split_ifs at h with hfull
  exact Nat.not_lt.mp hfull

/-- A file that cannot take all of a content takes as much as its limit allows. -/
theorem exists_limit_of_error {e : OsError} (h : (s.take path a).2 = some e) :
    ∃ limit, s.limit path = some limit ∧ limit.size < a.size ∧
      (s.take path a).1 = a.extract 0 limit.size := by
  unfold take at *
  split at h
  · cases h
  · rename_i limit hlimit
    split_ifs at h ⊢ with hfull
    exact ⟨limit, hlimit, hfull, rfl⟩

end Surroundings

/-! ## Directories -/

/-- The path of the place for a file that was found. -/
def reached : Except OsError Place → Option (List String)
  | .ok place => place.target?
  | .error _ => none

namespace FileSystem

/-- The path at which a file is written. -/
def target? (fs : FileSystem) (path : String) : Option (List String) :=
  (fs.create path).toOption.map (·.1)

theorem create_eq_ok_iff {fs fs' : FileSystem} {path : String} {target : List String} :
    fs.create path = .ok (target, fs') ↔ reached (fs.locateNew path) = some target ∧
      fs.surroundings.unwritable target = none ∧ fs' = fs.put target .empty := by
  unfold create
  cases fs.locateNew path with
  | error e => simp [reached]
  | ok place =>
    simp only [reached]
    cases place.target? with
    | none => simp
    | some other =>
      dsimp only
      constructor
      · intro h
        split at h
        · cases h
        · cases h
          exact ⟨rfl, ‹_›, rfl⟩
      · rintro ⟨⟨⟩, hopen, rfl⟩
        rw [hopen]

theorem create_of_target? {fs : FileSystem} {path : String} {target : List String}
    (h : fs.target? path = some target) : fs.create path = .ok (target, fs.put target .empty) := by
  unfold target? at h
  cases hcreate : fs.create path with
  | error e => simp [hcreate, Except.toOption] at h
  | ok made =>
    obtain ⟨other, fs'⟩ := made
    obtain rfl : other = target := by simpa [hcreate, Except.toOption] using h
    obtain ⟨-, -, rfl⟩ := create_eq_ok_iff.mp hcreate
    rfl

theorem target?_eq_some_iff {fs : FileSystem} {path : String} {target : List String} :
    fs.target? path = some target ↔
      reached (fs.locateNew path) = some target ∧ fs.surroundings.unwritable target = none := by
  constructor
  · intro h
    obtain ⟨hreached, hopen, -⟩ := create_eq_ok_iff.mp (create_of_target? h)
    exact ⟨hreached, hopen⟩
  · rintro ⟨hreached, hopen⟩
    have hcreate := create_eq_ok_iff.mpr ⟨hreached, hopen, rfl⟩
    simp [target?, hcreate, Except.toOption]

/-- The surroundings and the directories are the same. -/
structure SameDirectories (fs fs' : FileSystem) : Prop where
  surroundings : fs'.surroundings = fs.surroundings
  hasDirectory : ∀ path, fs'.hasDirectory path = fs.hasDirectory path

namespace SameDirectories

variable {fs fs' fs'' : FileSystem}

theorem refl (fs : FileSystem) : SameDirectories fs fs := ⟨rfl, fun _ => rfl⟩

theorem trans (h : SameDirectories fs fs') (h' : SameDirectories fs' fs'') :
    SameDirectories fs fs'' where
  surroundings := h'.surroundings.trans h.surroundings
  hasDirectory path := (h'.hasDirectory path).trans (h.hasDirectory path)

theorem reached_walk (h : SameDirectories fs fs') (here names : List String) :
    reached (fs'.walk here names) = reached (fs.walk here names) := by
  induction names generalizing here with
  | nil => rfl
  | cons name names ih =>
    unfold walk
    dsimp only
    rw [h.hasDirectory]
    split_ifs with hself hup hlong hdirectory
    · exact ih here
    · exact ih here.dropLast
    · rfl
    · exact ih _
    -- a file that is there is written where it would be made
    · cases fs.file? (here ++ [name]) <;> cases fs'.file? (here ++ [name]) <;> cases names <;> rfl

theorem reached_follow (h : SameDirectories fs fs') (path : String) (names : List String) :
    reached (fs'.follow path names) = reached (fs.follow path names) := by
  have hstart : fs'.start path = fs.start path := by rw [start, h.surroundings, start]
  unfold follow
  rw [hstart]
  split_ifs
  · rfl
  · rfl
  · exact h.reached_walk _ _

theorem target?_eq (h : SameDirectories fs fs') (path : String) :
    fs'.target? path = fs.target? path := by
  have hreached : reached (fs'.locateNew path) = reached (fs.locateNew path) := by
    unfold locateNew
    dsimp only
    split_ifs
    · exact h.reached_follow _ _
    · exact h.reached_follow _ _
  ext target
  rw [target?_eq_some_iff, target?_eq_some_iff, hreached, h.surroundings]

end SameDirectories

theorem hasDirectory_iff {fs : FileSystem} {path : List String} :
    fs.hasDirectory path = true ↔
      (∃ d ∈ fs.surroundings.here :: fs.surroundings.directories, path <+: d) ∨
        ∃ f ∈ fs.entries, path <+: f.1 ∧ path ≠ f.1 := by
  simp only [hasDirectory, Bool.or_eq_true, List.any_eq_true, Bool.and_eq_true, bne_iff_ne,
    List.isPrefixOf_iff_prefix]

theorem hasDirectory_mono {fs : FileSystem} {path path' : List String} (h : path <+: path')
    (hpath' : fs.hasDirectory path' = true) : fs.hasDirectory path = true := by
  rw [hasDirectory_iff] at *
  rcases hpath' with ⟨d, hd, hbelow⟩ | ⟨f, hf, hbelow, hne⟩
  · exact .inl ⟨d, hd, h.trans hbelow⟩
  · refine .inr ⟨f, hf, h.trans hbelow, ?_⟩
    rintro rfl
    exact hne (hbelow.eq_of_length_le h.length_le)

theorem hasDirectory_start (fs : FileSystem) (path : String) :
    fs.hasDirectory (fs.start path) = true := by
  refine hasDirectory_iff.mpr (.inl ⟨_, List.mem_cons_self, ?_⟩)
  unfold start
  split_ifs
  · exact List.nil_prefix
  · exact List.prefix_rfl

/-- A file is under the path or can be put there: there is a directory to hold it, and none in its
place. -/
structure IsSlot (fs : FileSystem) (path : List String) : Prop where
  parent : fs.hasDirectory path.dropLast = true
  free : fs.hasDirectory path = false

/-- If names lead from a directory that is there to a place for a file, then a file can be there. -/
theorem isSlot_of_reached_walk {fs : FileSystem} {here names path : List String}
    (hhere : fs.hasDirectory here = true) (h : reached (fs.walk here names) = some path) :
    fs.IsSlot path := by
  induction names generalizing here with
  | nil => cases h
  | cons name names ih =>
    unfold walk at h
    dsimp only at h
    split_ifs at h with hself hup hlong hdirectory
    · exact ih hhere h
    · exact ih (hasDirectory_mono here.dropLast_prefix hhere) h
    · cases h
    · exact ih hdirectory h
    · have hslot : fs.IsSlot (here ++ [name]) :=
        ⟨by rwa [List.dropLast_concat], Bool.eq_false_of_not_eq_true hdirectory⟩
      split at h <;> cases h <;> exact hslot

theorem isSlot_of_reached_follow {fs : FileSystem} {path : String} {names target : List String}
    (h : reached (fs.follow path names) = some target) : fs.IsSlot target := by
  unfold follow at h
  split_ifs at h
  · cases h
  · cases h
  · exact isSlot_of_reached_walk (fs.hasDirectory_start path) h

theorem isSlot_of_target? {fs : FileSystem} {path : String} {target : List String}
    (h : fs.target? path = some target) : fs.IsSlot target := by
  have hreached := (target?_eq_some_iff.mp h).1
  unfold locateNew at hreached
  dsimp only at hreached
  split_ifs at hreached
  · exact isSlot_of_reached_follow hreached
  · exact isSlot_of_reached_follow hreached

/-! ## One file in its place -/

@[simp] theorem surroundings_put (fs : FileSystem) (path : List String) (content : ByteArray) :
    (fs.put path content).surroundings = fs.surroundings := rfl

theorem entries_put (fs : FileSystem) (path : List String) (content : ByteArray) :
    (fs.put path content).entries = (path, content) :: fs.entries.filter (·.1 != path) := by
  simp only [entries, put, absolute, List.map_cons, List.filter_map]
  rfl

/-- Of two files put in one place the first leaves no trace. -/
@[simp] theorem put_put (fs : FileSystem) (path : List String) (a b : ByteArray) :
    (fs.put path a).put path b = fs.put path b := by
  have hfirst : (fs.absolute ("" :: path) != path) = false := by simp [absolute]
  have hfiles : (fs.put path a).files.filter (fs.absolute ·.1 != path) =
      fs.files.filter (fs.absolute ·.1 != path) := by
    simp only [put, List.filter_cons, hfirst, Bool.false_eq_true, if_false, List.filter_filter,
      Bool.and_self]
  exact congrArg (fun files => { fs with files := ("" :: path, b) :: files }) hfiles

@[simp] theorem file?_put_self (fs : FileSystem) (path : List String) (content : ByteArray) :
    (fs.put path content).file? path = some content := by
  rw [file?, entries_put, List.lookup_cons_self]

theorem file?_put_of_ne (fs : FileSystem) {path other : List String} (h : other ≠ path)
    (content : ByteArray) : (fs.put path content).file? other = fs.file? other := by
  have hfilter : ∀ entries : List (List String × ByteArray),
      (entries.filter (·.1 != path)).lookup other = entries.lookup other := by
    intro entries
    induction entries with
    | nil => rfl
    | cons f entries ih =>
      by_cases hf : f.1 = path
      · have hother : (other == f.1) = false := by simpa [hf] using h
        rw [List.filter_cons_of_neg (by simpa using hf), ih, List.lookup_cons, hother]
      · rw [List.filter_cons_of_pos (by simpa using hf), List.lookup_cons, List.lookup_cons, ih]
  have hother : (other == path) = false := by simpa using h
  rw [file?, entries_put, List.lookup_cons, hother]
  exact hfilter fs.entries

/-- A file in its place makes no directory and unmakes none. -/
theorem IsSlot.put {fs : FileSystem} {path : List String} (h : fs.IsSlot path)
    (content : ByteArray) : SameDirectories fs (fs.put path content) := by
  refine ⟨rfl, fun other => ?_⟩
  rw [Bool.eq_iff_iff, hasDirectory_iff, hasDirectory_iff, entries_put, surroundings_put]
  constructor
  · rintro (hfixed | ⟨f, hf, hbelow, hne⟩)
    · exact .inl hfixed
    rcases List.mem_cons.mp hf with rfl | hf
    · -- what holds the file was there before
      have hpath : path ≠ [] := by
        rintro rfl
        exact hne (List.prefix_nil.mp hbelow)
      rw [← List.dropLast_append_getLast hpath, List.prefix_concat_iff,
        List.dropLast_append_getLast hpath] at hbelow
      exact hasDirectory_iff.mp (hasDirectory_mono (hbelow.resolve_left hne) h.parent)
    · exact .inr ⟨f, (List.mem_filter.mp hf).1, hbelow, hne⟩
  · rintro (hfixed | ⟨f, hf, hbelow, hne⟩)
    · exact .inl hfixed
    by_cases hpath : f.1 = path
    · exact .inr ⟨(path, content), List.mem_cons_self, hpath ▸ hbelow, hpath ▸ hne⟩
    · exact .inr ⟨f, List.mem_cons_of_mem _ (List.mem_filter.mpr ⟨hf, by simpa using hpath⟩), hbelow,
        hne⟩

end FileSystem

end TurtleGraphics.CommandLine
