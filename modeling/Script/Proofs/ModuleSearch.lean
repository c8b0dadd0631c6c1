import Mathlib.Data.List.Basic
import Script.Module.Source

namespace Script

/-- What a file gives that is not missing. -/
def Reading.fetched? (path : String) : Reading → Option Fetched
  | .text source => some (.found ⟨path, source⟩)
  | .notFound => none
  | .failed reason => some (.unreadable reason)
  | .unread => some (.unread path)

namespace Reading

variable {path reason : String} {text : ModuleText} {reading : Reading}

theorem fetched?_eq_found :
    reading.fetched? path = some (.found text) ↔
      path = text.origin ∧ reading = .text text.source := by
  obtain ⟨origin, source⟩ := text
  cases reading <;> simp [fetched?]

theorem fetched?_eq_unreadable :
    reading.fetched? path = some (.unreadable reason) ↔ reading = .failed reason := by
  cases reading <;> simp [fetched?]

theorem fetched?_ne_notFound (all : List String) :
    reading.fetched? path ≠ some (.notFound all) := by
  cases reading <;> simp [fetched?]

end Reading

namespace ModuleSource

/-- Whether a file is the first of several that is not missing. -/
def FirstPresent (read : String → Reading) (paths : List String) (path : String) : Prop :=
  ∃ before after, paths = before ++ path :: after ∧ (∀ p ∈ before, read p = .notFound) ∧
    read path ≠ .notFound

variable {read other : String → Reading} {paths searched front later searchPaths : List String}
  {name path source reason : String} {text : ModuleText}

theorem firstReadable_append {before : List String} (missing : ∀ p ∈ before, read p = .notFound)
    (rest : List String) :
    firstReadable read searched (before ++ rest) = firstReadable read searched rest := by
  induction before with
  | nil => rfl
  | cons p before ih =>
    obtain ⟨gone, others⟩ := List.forall_mem_cons.mp missing
    simp only [List.cons_append, firstReadable, gone, ih others]

theorem firstReadable_of_missing (missing : ∀ p ∈ paths, read p = .notFound) :
    firstReadable read searched paths = .notFound searched := by
  rw [← paths.append_nil, firstReadable_append missing]
  rfl

theorem exists_firstPresent (read : String → Reading) (paths : List String) :
    (∀ p ∈ paths, read p = .notFound) ∨ ∃ path, FirstPresent read paths path := by
  induction paths with
  | nil => exact .inl (by simp)
  | cons p paths ih =>
    by_cases gone : read p = .notFound
    · rcases ih with missing | ⟨path, before, after, rfl, missing, present⟩
      · exact .inl (List.forall_mem_cons.mpr ⟨gone, missing⟩)
      · exact .inr ⟨path, p :: before, after, rfl, List.forall_mem_cons.mpr ⟨gone, missing⟩,
          present⟩
    · exact .inr ⟨p, [], paths, rfl, by simp, gone⟩

namespace FirstPresent

theorem decides (h : FirstPresent read paths path) (searched : List String) :
    (read path).fetched? path = some (firstReadable read searched paths) := by
  obtain ⟨before, after, rfl, missing, present⟩ := h
  rw [firstReadable_append missing]
  cases reading : read path with
  | notFound => exact absurd reading present
  | _ => simp only [firstReadable, reading, Reading.fetched?]

theorem append (h : FirstPresent read paths path) (more : List String) :
    FirstPresent read (paths ++ more) path := by
  obtain ⟨before, after, rfl, missing, present⟩ := h
  exact ⟨before, after ++ more, by simp, missing, present⟩

theorem mem (h : FirstPresent read paths path) : path ∈ paths := by
  obtain ⟨before, after, rfl, -, -⟩ := h
  simp

theorem congr (h : FirstPresent read paths path) (same : ∀ p ∈ paths, other p = read p) :
    FirstPresent other paths path := by
  obtain ⟨before, after, rfl, missing, present⟩ := h
  refine ⟨before, after, rfl, fun p hp => ?_, ?_⟩
  · rw [same p (by simp [hp]), missing p hp]
  · rwa [same path (by simp)]

end FirstPresent

/-- Unless all files are missing, the search comes to what the first one gives that is there. -/
theorem firstReadable_eq_iff {result : Fetched} (decisive : ∀ all, result ≠ .notFound all) :
    firstReadable read searched paths = result ↔
      ∃ path, FirstPresent read paths path ∧ (read path).fetched? path = some result := by
  constructor
  · rintro rfl
    rcases exists_firstPresent read paths with missing | ⟨path, first⟩
    · exact absurd (firstReadable_of_missing missing) (decisive searched)
    · exact ⟨path, first, first.decides searched⟩
  · rintro ⟨path, first, gives⟩
    exact Option.some.inj ((first.decides searched).symm.trans gives)

theorem firstReadable_eq_notFound_iff {all : List String} :
    firstReadable read searched paths = .notFound all ↔
      all = searched ∧ ∀ p ∈ paths, read p = .notFound := by
  constructor
  · intro notFound
    rcases exists_firstPresent read paths with missing | ⟨path, first⟩
    · cases (firstReadable_of_missing missing).symm.trans notFound
      exact ⟨rfl, missing⟩
    · have decided := first.decides searched
      rw [notFound] at decided
      exact absurd decided (Reading.fetched?_ne_notFound _)
  · rintro ⟨rfl, missing⟩
    exact firstReadable_of_missing missing

/-- The file of a module, below a search path or by itself. -/
def modulePath (name : String) : String :=
  if (FilePath.extension? name).isSome then name else FilePath.addExtension name fileExtension

theorem candidates_of_absolute (h : FilePath.isAbsolute (modulePath name)) :
    candidates searchPaths name = [modulePath name] := if_pos h

theorem candidates_of_relative (h : ¬FilePath.isAbsolute (modulePath name)) :
    candidates searchPaths name = searchPaths.map (FilePath.join · (modulePath name)) := if_neg h

theorem exists_candidates_append (front later : List String) (name : String) :
    ∃ more, candidates (front ++ later) name = candidates front name ++ more := by
  by_cases absolute : FilePath.isAbsolute (modulePath name)
  · exact ⟨[], by simp only [candidates_of_absolute absolute, List.append_nil]⟩
  · exact ⟨_, by simp only [candidates_of_relative absolute, List.map_append]; rfl⟩

theorem exists_searchPaths {before after : List String}
    (h : candidates searchPaths name = before ++ path :: after) : ∃ front later,
      searchPaths = front ++ later ∧ candidates front name = before ++ [path] := by
  by_cases absolute : FilePath.isAbsolute (modulePath name)
  · refine ⟨[], searchPaths, rfl, ?_⟩
    rw [candidates_of_absolute absolute] at h ⊢
    rcases List.singleton_eq_append_iff.mp h with ⟨rfl, tail⟩ | ⟨-, tail⟩
    · cases tail
      rfl
    · cases tail
  · rw [candidates_of_relative absolute] at h
    obtain ⟨front, later, rfl, mapped, others⟩ := List.map_eq_append_iff.mp h
    obtain ⟨directory, later, rfl, rfl, -⟩ := List.map_eq_cons_iff.mp others
    refine ⟨front ++ [directory], later, by simp, ?_⟩
    rw [candidates_of_relative absolute, List.map_append, mapped]
    rfl

theorem fetch_eq_found : (files searchPaths read).fetch name = .found text ↔
    FirstPresent read (candidates searchPaths name) text.origin ∧
      read text.origin = .text text.source := by
  refine (firstReadable_eq_iff (by simp)).trans ⟨?_, ?_⟩
  · rintro ⟨path, first, gives⟩
    obtain ⟨rfl, reading⟩ := Reading.fetched?_eq_found.mp gives
    exact ⟨first, reading⟩
  · rintro ⟨first, reading⟩
    exact ⟨_, first, Reading.fetched?_eq_found.mpr ⟨rfl, reading⟩⟩

/-- A module is fetched from the first file that is not missing, of those that its name stands for
below the search paths. That file's text is what is found, or its failure is the search's. Only if
all are missing the module is, and all are named. The search paths up to the one below which the
module is found decide alone: neither the search paths behind them nor other files make a
difference. -/
theorem fetch_first_present (searchPaths : List String) (read : String → Reading) (name : String) :
    (candidates searchPaths name = if FilePath.isAbsolute (modulePath name) then [modulePath name]
      else searchPaths.map (FilePath.join · (modulePath name))) ∧
    (∀ text, (files searchPaths read).fetch name = .found text ↔
      FirstPresent read (candidates searchPaths name) text.origin ∧
        read text.origin = .text text.source) ∧
    (∀ reason, (files searchPaths read).fetch name = .unreadable reason ↔
      ∃ path, FirstPresent read (candidates searchPaths name) path ∧
        read path = .failed reason) ∧
    (∀ all, (files searchPaths read).fetch name = .notFound all ↔
      all = candidates searchPaths name ∧
        ∀ path ∈ candidates searchPaths name, read path = .notFound) ∧
    ∀ text, (files searchPaths read).fetch name = .found text → ∃ front rest missing,
      searchPaths = front ++ rest ∧ candidates front name = missing ++ [text.origin] ∧
      (∀ path ∈ missing, read path = .notFound) ∧
      ∀ (later : List String) (other : String → Reading),
        (∀ path ∈ missing ++ [text.origin], other path = read path) →
          (files (front ++ later) other).fetch name = .found text := by
  refine ⟨rfl, fun text => fetch_eq_found, fun reason => ?_,
    fun all => firstReadable_eq_notFound_iff, fun text found => ?_⟩
  · exact (firstReadable_eq_iff (by simp)).trans
      (exists_congr fun path => and_congr_right fun _ => Reading.fetched?_eq_unreadable)
  · obtain ⟨⟨missing, after, split, gone, present⟩, reading⟩ := fetch_eq_found.mp found
    obtain ⟨front, rest, rfl, own⟩ := exists_searchPaths split
    refine ⟨front, rest, missing, rfl, own, gone, fun later other same => ?_⟩
    have first : FirstPresent read (missing ++ [text.origin]) text.origin :=
      ⟨missing, [], rfl, gone, present⟩
    obtain ⟨more, candidates_eq⟩ := exists_candidates_append front later name
    refine fetch_eq_found.mpr ⟨?_, (same _ first.mem).trans reading⟩
    rw [candidates_eq, own]
    exact (first.congr same).append more

/-- Reads files from a list, all others are missing. -/
def readAmong (listed : List (String × Reading)) (path : String) : Reading :=
  (listed.lookup path).getD .notFound

/-- A file that is found below the second of two search paths, with a third one behind them where
the module cannot be read. -/
theorem fetch_first_present_below :
    (files ["a", "b"] (readAmong [("b/m.lm", .text "1")])).fetch "m" = .found ⟨"b/m.lm", "1"⟩ ∧
    (files ["a", "b", "c"] (readAmong [("c/m.lm", .failed "Is a directory"),
      ("b/m.lm", .text "1")])).fetch "m" = .found ⟨"b/m.lm", "1"⟩ := by
  have paths : candidates ["a", "b"] "m" = ["a/m.lm", "b/m.lm"] := by decide +kernel
  have found : (files ["a", "b"] (readAmong [("b/m.lm", .text "1")])).fetch "m" =
      .found ⟨"b/m.lm", "1"⟩ := by
    simp only [fetch, paths]
    rfl
  refine ⟨found, ?_⟩
  obtain ⟨front, rest, missing, split, own, -, alone⟩ :=
    (fetch_first_present ["a", "b"] _ "m").2.2.2.2 _ found
  have inside : ∀ path ∈ missing ++ ["b/m.lm"], path ∈ ["a/m.lm", "b/m.lm"] := by
    intro path hp
    obtain ⟨more, all⟩ := exists_candidates_append front rest "m"
    rw [← split, paths, own] at all
    rw [all]
    exact List.mem_append_left _ hp
  have gives := alone (rest ++ ["c"]) (readAmong [("c/m.lm", .failed "Is a directory"),
    ("b/m.lm", .text "1")]) fun path hp => by
      rcases List.mem_pair.mp (inside path hp) with rfl | rfl <;> rfl
  rwa [← List.append_assoc, ← split] at gives

end ModuleSource

end Script
