/-
  SeededRows.Proofs.Csv.Target

  Targets at which a table can be made on every disk: those without a directory whose stem leads
  nowhere else. The place where paths start is always there, so nothing has to be made first.
-/
import Mathlib.Data.String.Basic
import SeededRows.Csv.Target

namespace SeededRows

open String

/-! ## Paths of one name -/

/-- A text without slashes is not split, wherever the search for one has got to. -/
theorem splitOnAux_of_not_mem {r : List Char} (hr : '/' ∉ r) (m : List Char) :
    splitOnAux (ofList (m ++ r)) "/" 0 ⟨utf8Len m⟩ 0 [] = [ofList (m ++ r)] := by
  induction r generalizing m with
  | nil =>
    have hend : Pos.Raw.atEnd (ofList (m ++ [])) ⟨utf8Len m⟩ = true := by
      rw [atEnd_iff]
      simp
    have hall := extract_of_valid [] m []
    rw [splitOnAux, if_pos hend]
    simpa using hall
  | cons c r ih =>
    rw [List.mem_cons, not_or] at hr
    have hgoing : ¬ Pos.Raw.atEnd (ofList (m ++ c :: r)) ⟨utf8Len m⟩ = true := by
      rw [atEnd_iff]
      have hc := c.utf8Size_pos
      simp only [rawEndPos_ofList, utf8Len_append, utf8Len_cons, Pos.Raw.mk_le_mk]
      omega
    have hget : Pos.Raw.get (ofList (m ++ c :: r)) ⟨utf8Len m⟩ = c := get_of_valid m (c :: r)
    have hslash : Pos.Raw.get "/" 0 = '/' := rfl
    have hne : ¬ (c == '/') = true := by simpa using Ne.symm hr.1
    have hstay : (⟨utf8Len m⟩ : Pos.Raw).unoffsetBy 0 = ⟨utf8Len m⟩ := rfl
    have hnext : Pos.Raw.next (ofList (m ++ c :: r)) ⟨utf8Len m⟩ = ⟨utf8Len (m ++ [c])⟩ := by
      rw [next_of_valid]
      simp
    have happend : m ++ c :: r = (m ++ [c]) ++ r := by simp
    rw [splitOnAux, if_neg hgoing, hget, hslash, if_neg hne, hstay, hnext, happend]
    exact ih hr.2 (m ++ [c])

namespace Path

variable {path : String}

theorem splitOn_of_not_mem (h : '/' ∉ path.toList) : path.splitOn "/" = [path] := by
  have hsplit := splitOnAux_of_not_mem h []
  rwa [List.nil_append, ofList_toList] at hsplit

theorem names_of_not_mem (h : '/' ∉ path.toList) (hne : path ≠ "") : names path = [path] := by
  rw [names, splitOn_of_not_mem h]
  simp [hne]

theorem names_empty : names "" = [] := by
  rw [names, splitOn_of_not_mem (by simp)]
  rfl

theorem startsWith_of_not_mem (h : '/' ∉ path.toList) : path.startsWith "/" = false := by
  rw [startsWith_string_eq_false_iff]
  rintro ⟨rest, hrest⟩
  apply h
  rw [← hrest]
  simp

theorem start_of_not_mem (h : '/' ∉ path.toList) : start path = [] := by
  rw [start, startsWith_of_not_mem h]
  rfl

theorem problem?_eq_none (hzero : '\x00' ∉ path.toList) (hlength : path.utf8ByteSize ≤ longest) :
    problem? path = none := by
  rw [problem?, contains_char_eq, if_neg (by simpa using hzero), if_neg (Nat.not_lt.mpr hlength)]

end Path

/-! ## Files in the place where paths start -/

namespace CsvTarget

variable {stem : String}

/-- The name of the file of a stem. -/
def fileName (stem : String) : String := stem ++ "-" ++ sampleId ++ ".csv"

theorem path_of_not_mem (h : '/' ∉ (fileName stem).toList) :
    (CsvTarget.mk "" stem).path sampleId = fileName stem := by
  have hname : stem ++ "-" ++ sampleId ++ ".csv" = fileName stem := rfl
  rw [path, Path.join, hname, Path.startsWith_of_not_mem h]
  simp

/-- No directory is made for a target without one. -/
theorem makeAll_empty (disk : Disk) : disk.makeAll "" = (none, disk) := by
  have hdot : ".".utf8ByteSize ≤ Path.longestName := by decide
  have hmade : disk.make [] [] = .ok disk := by
    simp [Disk.make, Disk.follow, Place.enter, Disk.isFile, Disk.entry?, Place.given, Disk.add,
      Nat.not_lt.mpr hdot, bind, Except.bind]
  have hproblem : Path.problem? "" = none := Path.problem?_eq_none (by simp) (by simp)
  rw [Disk.makeAll, hproblem, Path.names_empty, Path.start_of_not_mem (by simp)]
  dsimp only
  rw [Disk.makeAfter, hmade]

/-- A file can always be made in the place where paths start. -/
theorem problem?_of_plain (hslash : '/' ∉ (fileName stem).toList)
    (hzero : '\x00' ∉ (fileName stem).toList)
    (hlength : (fileName stem).utf8ByteSize ≤ Path.longestName) (disk : Disk) :
    (CsvTarget.mk "" stem).problem? disk = none := by
  have hlongest : (fileName stem).utf8ByteSize ≤ Path.longest := Nat.le_trans hlength (by decide)
  have hne : fileName stem ≠ "" := by simp [fileName]
  have hfolder : disk.folderOf (fileName stem) = .ok ([], fileName stem) := by
    rw [Disk.folderOf, Path.problem?_eq_none hzero hlongest]
    dsimp only
    rw [Path.names_of_not_mem hslash hne, Path.start_of_not_mem hslash]
    simp [Disk.follow, Nat.not_lt.mpr hlength, bind, Except.bind]
  rw [problem?, prepare, makeAll_empty]
  dsimp only
  rw [path_of_not_mem hslash, Disk.newFileProblem?, hfolder]

end CsvTarget

end SeededRows
