import CodeAtlas.Advice.Advise
import CodeAtlas.Analysis.Survey
import CodeAtlas.Proofs.Value.Extraction
import CodeAtlas.Proofs.Value.Loose

/-!
# Whether suggested relations get through

A counsellor is told the classes of a survey as a table, by language and name.  It goes through what it is told as
through a list of classes, and meets the names of languages, which have no fields: no question is put.

* `Advice.relationsIn_append`: the relations of a reply are read, whatever stands around them;
* **`Counsellor.advise_classTable`**: none of them gets through.
-/

namespace CodeAtlas

open List

namespace Survey

theorem exists_withClasses_cons (r : FileReport) (k : Atom) (v : Value) (fs : Record) :
    ∃ v' fs', withClasses ((k, v) :: fs) r = (k, v') :: fs' := by
  rw [withClasses, Record.put]
  split
  · exact ⟨_, _, rfl⟩
  · exact ⟨_, _, rfl⟩

theorem exists_foldl_withClasses (rs : List FileReport) (k : Atom) (v : Value) (fs : Record) :
    ∃ v' fs', rs.foldl withClasses ((k, v) :: fs) = (k, v') :: fs' := by
  induction rs generalizing v fs with
  | nil => exact ⟨v, fs, rfl⟩
  | cons r rs ih =>
    obtain ⟨v', fs', heq⟩ := exists_withClasses_cons r k v fs
    rw [foldl_cons, heq]
    exact ih v' fs'

/-- The first key of a table of classes is the name of a language. -/
theorem exists_classTable_eq {rs : List FileReport} (hne : rs ≠ []) : ∃ s v fs, classTable rs = (.text s, v) :: fs := by
  obtain ⟨r, rs, rfl⟩ := exists_cons_of_ne_nil hne
  exact ⟨r.language.name, exists_foldl_withClasses rs _ _ []⟩

end Survey

namespace Advice

variable {before after : List Char}

theorem bracketed?_append (hbefore : '[' ∉ before) (hafter : ']' ∉ after) (inner : List Char) :
    bracketed? '[' ']' (before ++ '[' :: (inner ++ ']' :: after)) = some ('[' :: (inner ++ [']'])) := by
  have hfirst : Chars.find? ['['] (before ++ '[' :: (inner ++ ']' :: after)) = some before.length :=
    Chars.find?_append (fun h => hbefore (by simpa using h.subset mem_cons_self)) (by simp) _
  have hlast : Chars.findLast? [']'] ((before ++ '[' :: inner) ++ ([']'] ++ after)) =
      some (before ++ '[' :: inner).length :=
    Chars.findLast?_append (fun h => hafter (h.subset mem_cons_self)) (by simp) _
  have hstop : (before ++ '[' :: inner).length + 1 - before.length = ('[' :: (inner ++ [']'])).length := by
    simp only [length_append, length_cons, length_nil]
    omega
  simp only [append_assoc, cons_append, nil_append] at hlast
  rw [bracketed?, hfirst, hlast]
  simp only [hstop, drop_left]
  rw [show '[' :: (inner ++ ']' :: after) = '[' :: (inner ++ [']']) ++ after by simp, take_left]

theorem relationsIn_append {inner : List Char} {objects : List Record} (hbefore : '[' ∉ before) (hafter : ']' ∉ after)
    (hparse : Json.parse (String.ofList ('[' :: (inner ++ [']']))) = .ok (.list (objects.map .record))) :
    relationsIn (.text (String.ofList (before ++ '[' :: (inner ++ ']' :: after)))) =
      .ok (.list (objects.map fun fs => .record (Record.put (.text "source") (.text "ai-inferred") fs))) := by
  have hlist : listIn (.text (String.ofList (before ++ '[' :: (inner ++ ']' :: after)))) =
      .ok (.list (objects.map .record)) := by
    rw [listIn, documentIn]
    simp only [Value.text, Value.textFor, Loose.ok_bind, String.toList_ofList, bracketed?_append hbefore hafter, hparse]
    rfl
  have hmarked : (objects.map Value.record).mapM marked =
      .ok ((objects.map Value.record).map fun v => (marked v).toOption.getD .null) :=
    Loose.mapM_ok fun v hv => by
      obtain ⟨fs, _, rfl⟩ := mem_map.mp hv
      rfl
  rw [relationsIn, hlist, Loose.ok_bind, Value.items, Loose.ok_bind, hmarked, map_map]
  rfl

end Advice

namespace Counsellor

theorem question_record (s : String) (v : Value) (fs : Record) (relations sources : Value) :
    question .relations (.record ((.text s, v) :: fs)) relations sources = .error (.noOperation "str" "get") := rfl

/-- **Relations that are suggested are lost.** A counsellor who is told the table of classes of any reports says nothing
and asks nothing; this is what a model suggests only if it suggests nothing.  With any classes about which the question
can be put, all relations of the reply come back, marked. -/
theorem advise_classTable (key model relations : Value) (before inner after : List Char) (rs : List FileReport)
    (objects : List Record) (hkey : key.truthy) (hne : rs ≠ []) (hbefore : ∀ c ∈ before, c ∉ ['[', ']'])
    (hafter : ∀ c ∈ after, c ∉ ['[', ']'])
    (hparse : Json.parse (String.ofList ('[' :: (inner ++ [']']))) = .ok (.list (objects.map .record))) :
    let c : Counsellor := ⟨key, model, .replying (String.ofList (before ++ '[' :: (inner ++ ']' :: after)))⟩
    let suggested := Value.list (objects.map fun fs => .record (Record.put (.text "source") (.text "ai-inferred") fs))
    (∀ classes q, question .relations classes relations .null = .ok q →
      c.advise .relations classes relations .null = (suggested, [.text q])) ∧
    c.advise .relations (.record (Survey.classTable rs)) relations .null = (.list [], []) ∧
    ((c.advise .relations (.record (Survey.classTable rs)) relations .null).1 = suggested ↔ objects = []) := by
  intro c suggested
  have hon : ¬ (!c.key.truthy) = true := by simp [c, hkey]
  -- the first key is a text and no class, so the question fails before anything is asked
  have hnone : c.advise .relations (.record (Survey.classTable rs)) relations .null = (.list [], []) := by
    obtain ⟨s, v, fs, heq⟩ := Survey.exists_classTable_eq hne
    rw [heq, advise, if_neg hon, question_record]
    rfl
  refine ⟨fun classes q hq => ?_, hnone, ?_⟩
  · have hread := Advice.relationsIn_append (fun h => hbefore _ h (by simp)) (fun h => hafter _ h (by simp)) hparse
    rw [advise, if_neg hon, hq]
    simp only [ask, if_neg hon, c, readReply, hread, suggested]
  · rw [hnone, Value.list.injEq, eq_comm, map_eq_nil_iff]

/-- One relation is suggested for a repository with one class. -/
theorem advise_classTable_call :
    (Counsellor.advise ⟨.text "k", .text "gpt-4", .replying "Here: [\x7b\"from\": \"A\"\x7d]."⟩ .relations
      (.record (Survey.classTable [⟨.python, [{ name := "A" }], []⟩])) (.list []) .null) = (.list [], []) ∧
    Json.parse "[\x7b\"from\": \"A\"\x7d]" = .ok (.list [.ofFields [("from", .text "A")]]) := by
  have hparse : Json.parse "[\x7b\"from\": \"A\"\x7d]" = .ok (.list [.ofFields [("from", .text "A")]]) := by rfl
  have hadvice :=
    advise_classTable (.text "k") (.text "gpt-4") (.list []) "Here: ".toList "\x7b\"from\": \"A\"\x7d".toList ".".toList
    [⟨.python, [{ name := "A" }], []⟩] [[(.text "from", .text "A")]] rfl (by simp) (by decide) (by decide) hparse
  exact ⟨hadvice.2.1, hparse⟩

end Counsellor

end CodeAtlas
