import CodeAtlas.Proofs.Repository.NormalPath

/-!
# Paths that stay below their base

The test for containment compares texts, and a text that starts with a base need not lie below it.  A path that is
accepted has no steps upwards, so its parts are added to the names of the base, whatever base and current directory are.

* `SafePath.isPlain_iff`: how a plain path is written;
* **`SafePath.confineFrom_stays_below`**: exactly the plain paths are accepted, and they lead below the base.
-/

namespace CodeAtlas

open CodeAtlas.Path

theorem Path.join_prefix (ns ms : List String) :
    (Text.join "/" ns).toList <+: (Text.join "/" (ns ++ ms)).toList := by
  by_cases hns : ns = []
  · subst hns
    exact List.nil_prefix
  by_cases hms : ms = []
  · rw [hms, List.append_nil]
  · have hne : ns.map String.toList ≠ [] := by simpa using hns
    have hne' : ms.map String.toList ≠ [] := by simpa using hms
    have hchars := Chars.join_append ['/'] hne hne'
    rw [Text.toList_join, Text.toList_join, List.map_append, toList_slash, hchars, List.append_assoc]
    exact List.prefix_append _ _

/-- A path without steps upwards leads below its base: its steps are added to the names of the base. -/
theorem Path.isSpelled_below {directory base path : String} (hdirectory : isAbsolute directory)
    (hpath : isAbsolute path = false) (hup : ¬ ['.', '.'] <:+: path.toList) :
    IsSpelled (absoluteFrom directory (join base path)) (root (join directory base))
      (names (absoluteFrom directory base) ++ steps path) := by
  have hbase := isSpelled_absoluteFrom hdirectory base
  have hnone : ".." ∉ Text.splitOn path "/" := fun h => hup (Text.infix_of_mem_splitOn rfl h)
  refine ⟨hbase.isRoot, ?_, ?_⟩
  · intro n hn
    rw [hbase.names_eq] at hn
    rcases List.mem_append.mp hn with hn | hn
    · exact hbase.proper n hn
    · rw [steps, List.mem_filter, Bool.and_eq_true, bne_iff_ne, bne_iff_ne] at hn
      exact ⟨hn.2.1, hn.2.2, fun h => hnone (h ▸ hn.1), Text.not_mem_of_mem_splitOn rfl hn.1⟩
  · rw [absoluteFrom_join hdirectory base hpath, resolve_of_no_up hnone, List.reverse_reverse, hbase.names_eq]
    rfl

namespace SafePath

variable {directory path base : String}

theorem isPlain_iff : isPlain path ↔
    ¬ ['.', '.'] <:+: path.toList ∧ ':' ∉ path.toList ∧ path.toList.head? ≠ some '/' := by
  have hup : Text.contains path ".." ↔ ['.', '.'] <:+: path.toList := Chars.contains_iff
  have hcolon : Text.contains path ":" ↔ [':'] <:+: path.toList := Chars.contains_iff
  have hslash : Text.startsWith path "/" ↔ ['/'] <+: path.toList := Chars.startsWith_iff
  have hhead : ['/'] <+: path.toList ↔ path.toList.head? = some '/' := by
    cases path.toList <;> simp [eq_comm]
  rw [isPlain, Bool.not_eq_true', Bool.or_eq_false_iff, Bool.or_eq_false_iff, ← Bool.not_eq_true, ← Bool.not_eq_true,
    ← Bool.not_eq_true, hup, hcolon, hslash, hhead, List.singleton_infix_iff, and_right_comm, and_assoc]

theorem isSpelled_target (hdirectory : isAbsolute directory) (hplain : isPlain path) (base : String) :
    Path.IsSpelled (absoluteFrom directory (Path.normal (Path.join base path)))
      (Path.root (Path.join directory base)) (Path.names (absoluteFrom directory base) ++ Path.steps path) := by
  obtain ⟨hup, -, hhead⟩ := isPlain_iff.mp hplain
  have hrelative : isAbsolute path = false := by
    rw [← Bool.not_eq_true, isAbsolute_iff]
    rintro ⟨t, ht⟩
    exact hhead (by rw [← ht]; rfl)
  rw [absoluteFrom_normal hdirectory]
  exact isSpelled_below hdirectory hrelative hup

theorem confineFrom_ok (hdirectory : isAbsolute directory) (path base target : String) :
    confineFrom directory path base = .ok target ↔
      isPlain path ∧ target = absoluteFrom directory (Path.normal (Path.join base path)) := by
  unfold confineFrom
  cases hplain : isPlain path with
  | false =>
    simp only [Bool.false_eq_true, if_false, false_and, iff_false]
    split <;> simp
  | true =>
    have hbase := isSpelled_absoluteFrom hdirectory base
    have hcontained : Text.startsWith (absoluteFrom directory (Path.normal (Path.join base path)))
        (absoluteFrom directory base) = true := by
      rw [(isSpelled_target hdirectory hplain base).eq, hbase.names_eq, hbase.eq]
      refine Chars.startsWith_iff.mpr ?_
      rw [String.toList_append, String.toList_append, List.prefix_append_right_inj]
      exact join_prefix _ _
    simp [hcontained, eq_comm]

/-- Exactly the paths without steps upwards, colons and a leading slash are accepted, and they lead below the base: an
accepted path is written with the names of the base, and with the steps of the path after them. -/
theorem confineFrom_stays_below (hdirectory : Path.isAbsolute directory = true) (path base : String) :
    ((∃ target, confineFrom directory path base = .ok target) ↔
      ¬ ['.', '.'] <:+: path.toList ∧ ':' ∉ path.toList ∧ path.toList.head? ≠ some '/') ∧
    ∀ target, confineFrom directory path base = .ok target → ∃ root,
      Path.IsSpelled (Path.absoluteFrom directory base) root (Path.names (Path.absoluteFrom directory base)) ∧
      Path.IsSpelled target root (Path.names (Path.absoluteFrom directory base) ++ Path.steps path) := by
  have hok := confineFrom_ok hdirectory path base
  refine ⟨?_, ?_⟩
  · rw [← isPlain_iff]
    constructor
    · rintro ⟨target, h⟩
      exact ((hok target).mp h).1
    · intro hplain
      exact ⟨_, (hok _).mpr ⟨hplain, rfl⟩⟩
  · intro target h
    obtain ⟨hplain, htarget⟩ := (hok target).mp h
    have hbase := Path.isSpelled_absoluteFrom hdirectory base
    rw [htarget]
    refine ⟨Path.root (Path.join directory base), ?_, isSpelled_target hdirectory hplain base⟩
    rwa [hbase.names_eq]

/-- From `/srv`, the base `data/../repo/` is `/srv/repo`, and a path with empty parts and `.` leads below it. -/
theorem confineFrom_stays_below_repo :
    Path.isAbsolute "/srv" = true ∧ confineFrom "/srv" "docs/.//a.txt" "data/../repo/" = .ok "/srv/repo/docs/a.txt" ∧
    ∃ root, Path.IsSpelled (Path.absoluteFrom "/srv" "data/../repo/") root
        (Path.names (Path.absoluteFrom "/srv" "data/../repo/")) ∧
      Path.IsSpelled "/srv/repo/docs/a.txt" root
        (Path.names (Path.absoluteFrom "/srv" "data/../repo/") ++ Path.steps "docs/.//a.txt") := by
  have hok : confineFrom "/srv" "docs/.//a.txt" "data/../repo/" = .ok "/srv/repo/docs/a.txt" := by decide +kernel
  have habsolute : Path.isAbsolute "/srv" = true := by decide +kernel
  exact ⟨habsolute, hok,
    (confineFrom_stays_below habsolute "docs/.//a.txt" "data/../repo/").2 "/srv/repo/docs/a.txt" hok⟩

end SafePath

end CodeAtlas
