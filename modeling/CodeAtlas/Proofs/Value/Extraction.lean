import CodeAtlas.Proofs.Value.Reading
import CodeAtlas.Value.JsonExtract

/-!
# Documents between fences

A document that a chat text holds between two fences is found, whatever it is and whatever stands around the fences.
The text as a whole is no document, since nothing can be read over the first fence; and the last fence is that after the
document, even if there are fences in its strings.

* `Chars.findLast?_append`: the last occurrence of a part is found;
* **`Json.extract_fenced`**: the document.
-/

namespace CodeAtlas

open List

theorem Chars.findLast?_append {p b : List Char} (h : ¬ p <:+: p.tail ++ b) (hne : p ≠ []) (a : List Char) :
    findLast? p (a ++ (p ++ b)) = some a.length := by
  have hreverse : ¬ p.reverse <:+: b.reverse ++ p.reverse.dropLast := by
    rwa [dropLast_reverse, ← reverse_append, reverse_infix]
  rw [findLast?, reverse_append, reverse_append, append_assoc, find?_append hreverse (by simpa using hne)]
  simp only [Option.map_some, length_append, length_reverse, Option.some.injEq]
  omega

namespace Json

theorem fence_not_within {s : List Char} (h : s.count '\x60' ≤ 2) : ¬ fence <:+: s := by
  intro hinfix
  have hcount := hinfix.sublist.count_le '\x60'
  rw [show fence.count '\x60' = 3 from rfl] at hcount
  omega

variable {before tag after : List Char}

theorem fenced?_append (hbefore : '\x60' ∉ before) (hafter : '\x60' ∉ after) (htag : '\n' ∉ tag) (inner : List Char) :
    fenced? (before ++ (fence ++ (tag ++ '\n' :: (inner ++ (fence ++ after))))) = some inner := by
  have hfirst := Chars.find?_append (p := fence) (a := before)
    (fence_not_within (by simp [fence, count_eq_zero.mpr hbefore])) (by decide)
    (tag ++ '\n' :: (inner ++ (fence ++ after)))
  have hlast := Chars.findLast?_append (p := fence) (b := after)
    (fence_not_within (by simp [fence, count_eq_zero.mpr hafter])) (by decide)
    (before ++ (fence ++ (tag ++ '\n' :: inner)))
  have hslice : ((before ++ (fence ++ (tag ++ '\n' :: (inner ++ (fence ++ after))))).drop (before.length + 3)).take
      ((before ++ (fence ++ (tag ++ '\n' :: inner))).length - (before.length + 3)) = tag ++ '\n' :: inner := by
    have hstart : before.length + 3 = (before ++ fence).length := by simp [fence]
    have hstop : (before ++ (fence ++ (tag ++ '\n' :: inner))).length - (before ++ fence).length =
        (tag ++ '\n' :: inner).length := by
      rw [← append_assoc before, length_append, Nat.add_sub_cancel_left]
    rw [hstart, hstop, ← append_assoc before, drop_left, ← cons_append, ← append_assoc tag, take_left]
  simp only [append_assoc, cons_append] at hlast
  rw [fenced?, hfirst, hlast]
  simp only [hslice]
  rw [if_pos (by simp [fence]), afterFirstLine,
    dropWhile_append_of_pos fun c hc => by simpa using ne_of_mem_of_not_mem hc htag]
  rfl

/-- **A document between fences is found.** -/
theorem extract_fenced {b : String} {v : Value} (hb : parse b = .ok v) (before tag after : String)
    (hbefore : '\x60' ∉ before.toList) (hafter : '\x60' ∉ after.toList) (htag : ∀ c ∈ tag.toList, c.isAlpha) :
    extract (before ++ String.ofList fence ++ tag ++ "\n" ++ b ++ "\n" ++ String.ofList fence ++ after) = v := by
  have hletters {c : Char} (hc : c.isAlpha = false) : c ∉ tag.toList := by
    intro hmem
    rw [htag c hmem] at hc
    cases hc
  have hfenced := fenced?_append hbefore hafter (hletters rfl) (b.toList ++ ['\n'])
  have htext : (before ++ String.ofList fence ++ tag ++ "\n" ++ b ++ "\n" ++ String.ofList fence ++ after).toList =
      before.toList ++ (fence ++ (tag.toList ++ '\n' :: ((b.toList ++ ['\n']) ++ (fence ++ after.toList)))) := by
    simp
  have hinner : parse (String.ofList (b.toList ++ ['\n'])) = .ok v := by
    rw [String.ofList_append, String.ofList_toList]
    exact parse_append_feed hb
  unfold extract
  split
  next w hwhole =>
    -- the text is no document as a whole
    refine absurd ?_ (not_blocked_of_parse hwhole)
    rw [htext]
    exact ⟨before.toList ++ ['\x60', '\x60'], tag.toList, b.toList ++ ['\n'] ++ (fence ++ after.toList),
      by simp [fence], hletters rfl⟩
  next => simp only [htext, hfenced, hinner]

/-- A text with fences in it, between fences. -/
theorem extract_fenced_fence : parse "[\"\x60\x60\x60\\n\x60\x60\x60\"]" = .ok (.texts ["\x60\x60\x60\n\x60\x60\x60"]) ∧
    extract "Here it is:\n\x60\x60\x60json\n[\"\x60\x60\x60\\n\x60\x60\x60\"]\n\x60\x60\x60\nDone." =
      .texts ["\x60\x60\x60\n\x60\x60\x60"] := by
  have hparse : parse "[\"\x60\x60\x60\\n\x60\x60\x60\"]" = .ok (.texts ["\x60\x60\x60\n\x60\x60\x60"]) := by rfl
  exact ⟨hparse, extract_fenced hparse "Here it is:\n" "json" "\nDone." (by decide) (by decide) (by decide)⟩

end Json

end CodeAtlas
