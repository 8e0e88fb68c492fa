import CodeAtlas.Proofs.Text.Occurrence
import CodeAtlas.Repository.History

/-!
# What a printed history tells

Commits are printed one on a line, their values with bars between them.  The print is read with every end of a line as a
line feed, and the commits are read back by cutting its lines at the bars.

* `Commit.trim_print`: what reading takes away from a print, blanks before the first hash;
* `Commit.ofPrint_print`: values that hold no bar, no line feed and no carriage return are read back;
* **`histories_read_back`**: these are all commits that are read back; a commit with a bar in its subject is lost.

What is printed is taken as given: that the version control prints a commit in this form is not shown.
-/

namespace CodeAtlas

open List

theorem Chars.exists_join_cons (sep : List Char) (ps : List (List Char)) : ∃ t, ∀ p, join sep (p :: ps) = p ++ t := by
  cases ps with
  | nil => exact ⟨[], fun p => (append_nil p).symm⟩
  | cons q ps => exact ⟨sep ++ join sep (q :: ps), fun p => append_assoc ..⟩

/-! ### Ends of lines -/

theorem Text.plainLines_eq_self {s : String} (h : '\r' ∉ s.toList) : plainLines s = s := by
  have hchars : ∀ cs : List Char, '\r' ∉ cs → Chars.plainLines cs = cs := by
    intro cs hcs
    induction cs with
    | nil => rfl
    | cons c cs ih =>
      rw [mem_cons, not_or] at hcs
      have hstep : Chars.plainLines (c :: cs) = c :: Chars.plainLines cs := by
        rw [Chars.plainLines]
        · exact fun _ heq _ => hcs.1 heq.symm
        · exact fun heq => hcs.1 heq.symm
      rw [hstep, ih hcs.2]
  rw [plainLines, hchars _ h, String.ofList_toList]

theorem Text.not_mem_plainLines (s : String) : '\r' ∉ (plainLines s).toList := by
  rw [plainLines, String.toList_ofList]
  fun_induction Chars.plainLines s.toList with
  | case1 => exact not_mem_nil
  | case2 cs ih => simpa using ih
  | case3 cs _ ih => simpa using ih
  | case4 c cs _ hc ih => simpa [eq_comm] using And.intro hc ih

namespace Commit

/-- The values that are printed for a commit, in their order. -/
def values (c : Commit) : List String := [c.hash, c.author] ++ c.email.toList ++ [c.date, c.message]

def line (c : Commit) : String := Text.join "|" c.values

/-- The print of some commits, each on a line of its own. -/
def print (cs : List Commit) : String := Text.join "\n" (cs.map line) ++ "\n"

/-- A commit with a subject of one line that has no blanks around it, where nothing else is blank. -/
structure IsSound (c : Commit) : Prop where
  filled : ∀ v ∈ [c.hash, c.author, c.date], Text.isBlankText v = false
  oneLine : ∀ d ∈ c.message.toList, isLineBreak d = false
  tight : Text.trim c.message = c.message

def IsFree (d : Char) (c : Commit) : Prop := ∀ v ∈ c.values, d ∉ v.toList

instance (d : Char) (c : Commit) : Decidable (c.IsFree d) := inferInstanceAs (Decidable (∀ v ∈ c.values, d ∉ v.toList))

/-- A commit without the blanks before its hash. -/
def clipped (c : Commit) : Commit := { c with hash := Text.trimStart c.hash }

variable {c : Commit} {cs : List Commit}

/-! ### One line -/

theorem ofLine?_eq_some_iff {s : String} : ofLine? s = some c ↔ c.email = none ∧ Text.splitOn s "|" = c.values := by
  obtain ⟨hash, author, email, date, message⟩ := c
  unfold ofLine?
  cases email with
  | none => split <;> simp_all [values]
  | some e => split <;> simp_all [values]

theorem ofLastLine?_eq_some_iff {s : String} :
    ofLastLine? s = some c ↔ c.email.isSome ∧ Text.splitOn s "|" = c.values := by
  obtain ⟨hash, author, email, date, message⟩ := c
  unfold ofLastLine?
  cases email with
  | none => split <;> simp_all [values]
  | some e => split <;> simp_all [values]

theorem splitOn_line (h : c.IsFree '|') : Text.splitOn c.line "|" = c.values :=
  Text.splitOn_join rfl (by simp [values]) h

theorem isFree_of_splitOn {s : String} (h : Text.splitOn s "|" = c.values) :
    c.IsFree '|' ∧ ∀ d, d ∉ s.toList → c.IsFree d := by
  rw [IsFree, ← h]
  refine ⟨fun v hv => Text.not_mem_of_mem_splitOn rfl hv, fun d hd v hv hmem => hd ?_⟩
  rw [← h] at hv
  exact (Text.infix_of_mem_splitOn rfl hv).subset hmem

theorem isFree_clipped {d : Char} (h : c.IsFree d) : c.clipped.IsFree d := by
  obtain ⟨hhash, hrest⟩ := forall_mem_cons.mp h
  refine forall_mem_cons.mpr ⟨fun hd => hhash ?_, hrest⟩
  rw [clipped, Text.trimStart, String.toList_ofList] at hd
  exact (dropWhile_suffix isBlank).subset hd

theorem exists_line_eq (c : Commit) : ∃ a, c.line.toList = a ++ '|' :: c.message.toList := by
  refine ⟨Chars.join ['|'] (([c.hash, c.author] ++ c.email.toList ++ [c.date]).map String.toList), ?_⟩
  have hvalues : c.values = ([c.hash, c.author] ++ c.email.toList ++ [c.date]) ++ [c.message] := by simp [values]
  rw [line, Text.toList_join, hvalues, map_append, show "|".toList = ['|'] from rfl,
    Chars.join_append ['|'] (by simp) (by simp), append_assoc, singleton_append]
  rfl

/-! ### The whole print -/

theorem trimStart_lines (h : Text.isBlankText c.hash = false) (cs : List Commit) :
    Chars.trimStart (Text.join "\n" ((c :: cs).map line)).toList =
      (Text.join "\n" ((c.clipped :: cs).map line)).toList := by
  obtain ⟨t, ht⟩ := Chars.exists_join_cons "\n".toList ((cs.map line).map String.toList)
  obtain ⟨u, hu⟩ :=
    Chars.exists_join_cons "|".toList (([c.author] ++ c.email.toList ++ [c.date, c.message]).map String.toList)
  have hline : ∀ s : String, ({ c with hash := s } : Commit).line.toList = s.toList ++ u := fun s =>
    (Text.toList_join ..).trans (hu s.toList)
  have hlines : ∀ s : String, (Text.join "\n" (({ c with hash := s } :: cs).map line)).toList = s.toList ++
      (u ++ t) := by
    intro s
    rw [Text.toList_join, map_cons, map_cons, ht, hline, append_assoc]
  refine (congrArg Chars.trimStart (hlines c.hash)).trans ?_
  rw [clipped, hlines, Chars.trimStart_append,
    if_neg (by rw [Chars.isBlankOnly, ← Text.isBlankText, h]; exact Bool.false_ne_true), Text.trimStart,
      String.toList_ofList]

theorem trimEnd_lines (hne : cs ≠ []) (h : ∀ c ∈ cs, Text.trim c.message = c.message) :
    Chars.trimEnd (Text.join "\n" (cs.map line)).toList = (Text.join "\n" (cs.map line)).toList := by
  -- what follows the last bar of a line, a subject, ends with no blank
  have hends : ∃ a m, (Text.join "\n" (cs.map line)).toList = a ++ '|' :: m ∧ Chars.trimEnd m = m := by
    rw [Text.toList_join]
    refine Chars.join_induction (P := fun l => ∃ a m, l = a ++ '|' :: m ∧ Chars.trimEnd m = m) ?_
      (by simpa using hne) ?_
    · rintro a _ - ⟨b, m, rfl, hm⟩
      exact ⟨a ++ ("\n".toList ++ b), m, by simp, hm⟩
    · simp only [mem_map, forall_exists_index, and_imp]
      rintro _ _ c hc rfl rfl
      obtain ⟨a, ha⟩ := exists_line_eq c
      have hmessage : Chars.trim c.message.toList = c.message.toList := by rw [← Text.toList_trim, h c hc]
      refine ⟨a, c.message.toList, ha, Chars.dropEndWhile_eq_self_iff.mpr fun d hd => ?_⟩
      rw [← hmessage] at hd
      exact Chars.not_isBlank_getLast?_trimEnd hd
  obtain ⟨a, m, heq, hm⟩ := hends
  rw [heq, Chars.trimEnd, Chars.dropEndWhile_append_cons rfl, ← Chars.trimEnd, hm]

theorem trim_print (h : ∀ d ∈ c :: cs, d.IsSound) :
    Text.trim (print (c :: cs)) = Text.join "\n" ((c.clipped :: cs).map line) := by
  obtain ⟨hc, hcs⟩ := forall_mem_cons.mp h
  have hend := trimEnd_lines (cons_ne_nil c.clipped cs) (forall_mem_cons.mpr ⟨hc.tight, fun d hd => (hcs d hd).tight⟩)
  rw [← String.toList_inj, Text.toList_trim, print, String.toList_append, Chars.trim_append_of_blank rfl, Chars.trim,
    trimStart_lines (hc.filled _ mem_cons_self), hend]

theorem ofPrint_print (h : ∀ d ∈ c :: cs, d.IsSound) (hbar : ∀ d ∈ c :: cs, d.IsFree '|')
    (hfeed : ∀ d ∈ c :: cs, d.IsFree '\n') (hemail : ∀ d ∈ c :: cs, d.email = none) :
    ofPrint (print (c :: cs)) = c.clipped :: cs := by
  have hread : ∀ d ∈ c.clipped :: cs, d.IsFree '|' ∧ d.IsFree '\n' ∧ d.email = none := by
    refine forall_mem_cons.mpr ⟨?_, fun d hd => ?_⟩
    · exact ⟨isFree_clipped (hbar c mem_cons_self), isFree_clipped (hfeed c mem_cons_self), hemail c mem_cons_self⟩
    · exact ⟨hbar d (mem_cons_of_mem c hd), hfeed d (mem_cons_of_mem c hd), hemail d (mem_cons_of_mem c hd)⟩
  have hlines : ∀ l ∈ (c.clipped :: cs).map line, '\n' ∉ l.toList := by
    intro l hl
    obtain ⟨d, hd, rfl⟩ := mem_map.mp hl
    rw [line, Text.toList_join]
    exact Chars.not_mem_join (by decide) (by simpa using fun v => (hread d hd).2.1 v)
  have hfilled : ∀ l ∈ (c.clipped :: cs).map line, (l != "") = true := by
    intro l hl
    obtain ⟨d, _, rfl⟩ := mem_map.mp hl
    obtain ⟨a, ha⟩ := exists_line_eq d
    rw [bne_iff_ne]
    intro hempty
    rw [hempty] at ha
    simp at ha
  have hback : ∀ d ∈ c.clipped :: cs, (ofLine? ∘ line) d = some d := by
    intro d hd
    rw [Function.comp_apply, ofLine?_eq_some_iff]
    exact ⟨(hread d hd).2.2, splitOn_line (hread d hd).1⟩
  rw [ofPrint, trim_print h, Text.splitOn_join rfl (by simp) hlines, filter_eq_self.mpr hfilled, filterMap_map,
    filterMap_congr hback, filterMap_some]

/-- What is read of a print holds no bar and no line feed, and nothing that was not printed. -/
theorem isFree_of_mem_ofPrint {out : String} (h : c ∈ ofPrint out) :
    c.IsFree '|' ∧ c.IsFree '\n' ∧ ∀ d, d ∉ out.toList → c.IsFree d := by
  obtain ⟨l, hl, hc⟩ := mem_filterMap.mp h
  obtain ⟨hbar, hfree⟩ := isFree_of_splitOn (ofLine?_eq_some_iff.mp hc).2
  have hpiece := (mem_filter.mp hl).1
  refine ⟨hbar, hfree _ (Text.not_mem_of_mem_splitOn rfl hpiece), fun d hd => hfree d fun hmem => hd ?_⟩
  have hinside := (Text.infix_of_mem_splitOn rfl hpiece).subset hmem
  rw [Text.toList_trim] at hinside
  exact (Chars.trim_isInfix _).subset hinside

theorem plainLines_print (h : ∀ d ∈ cs, d.IsFree '\r') : Text.plainLines (print cs) = print cs := by
  have hlines : ∀ l ∈ (cs.map line).map String.toList, '\r' ∉ l := by
    simp only [mem_map, exists_exists_and_eq_and, forall_exists_index, and_imp, forall_apply_eq_imp_iff₂]
    intro d hd
    rw [line, Text.toList_join]
    exact Chars.not_mem_join (by decide) (by simpa using fun v => h d hd v)
  refine Text.plainLines_eq_self ?_
  rw [print, String.toList_append, Text.toList_join, mem_append, not_or]
  exact ⟨Chars.not_mem_join (by decide) hlines, by decide⟩

end Commit

theorem fileHistory_done (out : String) (os : List Outcome) (sent : List Command) (repository : String)
    (file most : Value) : (fileHistory ⟨.done 0 out :: os, sent⟩ repository file most).1 = Commit.ofPrint out := by
  simp [fileHistory, Session.read, Session.run]

namespace Overview

variable {os : List Outcome} {sent : List Command}

theorem last_gather_done {g : Gathering Overview} {gs : List (Gathering Overview)} {o : Overview} {code : Int}
    {out : String} {last : Option Commit} (ho : o.last = none)
    (hlearn : code = 0 → ∃ more, g.learn out o = some more ∧ more.last = none)
    (hrest : ∀ more : Overview, more.last = none → (Session.gather ⟨os, sent ++ [g.command]⟩ more gs).1.last = last) :
    (Session.gather ⟨.done code out :: os, sent⟩ o (g :: gs)).1.last = last := by
  by_cases hcode : code = 0
  · obtain ⟨more, hmore, hnone⟩ := hlearn hcode
    simpa [Session.gather, Session.run, hcode, hmore] using hrest more hnone
  · simpa [Session.gather, Session.run, hcode] using hrest o ho

/-- Commands that fail before it do not keep the last commit from being read. -/
theorem last_gather {k : Int} {count : String} (hcount : k = 0 → (Number.readInt? 10 count.toList).isSome)
    (i j : Int) (remote branch out repository : String) :
    (gather ⟨.done i remote :: .done j branch :: .done k count :: .done 0 out :: os, sent⟩ repository true).1.last =
      Commit.ofLastLine? (Text.trim out) := by
  rw [gather, if_pos rfl, gatherings]
  refine last_gather_done rfl (fun _ => ⟨_, rfl, rfl⟩) fun o ho => ?_
  refine last_gather_done ho (fun _ => ⟨_, rfl, ho⟩) fun o ho => last_gather_done ho ?_ fun o ho => ?_
  · intro hk
    obtain ⟨n, hn⟩ := Option.isSome_iff_exists.mp (hcount hk)
    exact ⟨{ o with commits := n }, by simp [hn], ho⟩
  · cases hout : Commit.ofLastLine? (Text.trim out) <;> simp [Session.gather, Session.run, hout, ho]

end Overview

/-- **Commits that are read back.** A sound commit comes back from what is printed about it if its values hold no bar
and no carriage return, and if its hash does not open the print with a blank; in a history no value may hold a line feed
either.  Others are lost or changed. -/
theorem histories_read_back (cs : List Commit) (last : Commit) (remote branch count : String) (i j k : Int)
    (os : List Outcome) (sent : List Command) (repository : String) (file most : Value) (hne : cs ≠ [])
    (hsound : ∀ c ∈ last :: cs, c.IsSound) (hemail : ∀ c ∈ cs, c.email = none) (hlast : last.email.isSome)
    (hcount : k = 0 → (Number.readInt? 10 count.toList).isSome) :
    ((fileHistory ⟨.printed 0 (Commit.print cs) :: os, sent⟩ repository file most).1 = cs ↔
      (∀ c ∈ cs, c.IsFree '|' ∧ c.IsFree '\n' ∧ c.IsFree '\r') ∧ ∀ c ∈ cs.head?, Text.trimStart c.hash = c.hash) ∧
    ((Overview.gather
        ⟨.done i remote :: .done j branch :: .done k count :: .printed 0 (Commit.print [last]) :: os, sent⟩
        repository true).1.last = some last ↔
      (last.IsFree '|' ∧ last.IsFree '\r') ∧ Text.trimStart last.hash = last.hash) := by
  obtain ⟨hl, hcs⟩ := forall_mem_cons.mp hsound
  obtain ⟨c, cs, rfl⟩ := exists_cons_of_ne_nil hne
  constructor
  · simp only [Outcome.printed, fileHistory_done, head?_cons, Option.mem_some_iff, forall_eq']
    have hread : (∀ d ∈ c :: cs, d.IsFree '|' ∧ d.IsFree '\n' ∧ d.IsFree '\r') →
        Commit.ofPrint (Text.plainLines (Commit.print (c :: cs))) = c.clipped :: cs := by
      intro hfree
      rw [Commit.plainLines_print fun d hd => (hfree d hd).2.2]
      exact Commit.ofPrint_print hcs (fun d hd => (hfree d hd).1) (fun d hd => (hfree d hd).2.1) hemail
    constructor
    · intro h
      have hfree : ∀ d ∈ c :: cs, d.IsFree '|' ∧ d.IsFree '\n' ∧ d.IsFree '\r' := by
        intro d hd
        obtain ⟨hbar, hfeed, hother⟩ := Commit.isFree_of_mem_ofPrint (h.symm ▸ hd)
        exact ⟨hbar, hfeed, hother _ (Text.not_mem_plainLines _)⟩
      rw [hread hfree] at h
      exact ⟨hfree, congrArg Commit.hash (cons_eq_cons.mp h).1⟩
    · rintro ⟨hfree, hhash⟩
      rw [hread hfree, Commit.clipped, hhash]
  · rw [Outcome.printed, Overview.last_gather hcount, Commit.ofLastLine?_eq_some_iff]
    have hline : Text.join "\n" ([last.clipped].map Commit.line) = last.clipped.line := String.ofList_toList
    have hread : last.IsFree '|' → last.IsFree '\r' →
        Text.splitOn (Text.trim (Text.plainLines (Commit.print [last]))) "|" = last.clipped.values := by
      intro hbar hreturn
      rw [Commit.plainLines_print (forall_mem_singleton.mpr hreturn), Commit.trim_print (forall_mem_singleton.mpr hl),
        hline, Commit.splitOn_line (Commit.isFree_clipped hbar)]
    constructor
    · rintro ⟨_, hvalues⟩
      obtain ⟨hbar, hother⟩ := Commit.isFree_of_splitOn hvalues
      have hreturn : last.IsFree '\r' := by
        refine hother _ fun hmem => Text.not_mem_plainLines (Commit.print [last]) ?_
        rw [Text.toList_trim] at hmem
        exact (Chars.trim_isInfix _).subset hmem
      rw [hread hbar hreturn] at hvalues
      exact ⟨⟨hbar, hreturn⟩, (cons_eq_cons.mp hvalues).1⟩
    · rintro ⟨⟨hbar, hreturn⟩, hhash⟩
      refine ⟨hlast, (hread hbar hreturn).trans ?_⟩
      rw [Commit.clipped, hhash]

theorem histories_read_back_login :
    (fileHistory ⟨[.printed 0 "c1|Ann|Mon|Fix login\n"], []⟩ "." (.text "a.py") (.nat 10)).1 =
      [{ hash := "c1", author := "Ann", date := "Mon", message := "Fix login" }] ∧
    (Overview.gather ⟨[.done 1 "", .done 0 "main\n", .done 0 "2\n", .printed 0 "c1|Ann|a@b|Mon|Fix login\n"], []⟩ "."
        true).1.last =
      some { hash := "c1", author := "Ann", email := some "a@b", date := "Mon", message := "Fix login" } := by
  have hback := histories_read_back [{ hash := "c1", author := "Ann", date := "Mon", message := "Fix login" }]
    { hash := "c1", author := "Ann", email := some "a@b", date := "Mon", message := "Fix login" }
    "" "main\n" "2\n" 1 0 0 [] [] "." (.text "a.py") (.nat 10) (by decide)
    (forall_mem_cons.mpr
      ⟨⟨by decide, by decide, by decide⟩, forall_mem_singleton.mpr ⟨by decide, by decide, by decide⟩⟩)
    (by decide) rfl (by decide)
  exact ⟨hback.1.mpr (by decide), hback.2.mpr (by decide)⟩

/-- A bar in a subject: the commit is not told of. -/
theorem fileHistory_bar :
    (fileHistory ⟨[.printed 0 "c1|Ann|Mon|Split a|b\nc0|Bob|Sun|Start\n"], []⟩ "." (.text "a.py") (.nat 10)).1 =
      [{ hash := "c0", author := "Bob", date := "Sun", message := "Start" }] := by decide

end CodeAtlas
