import CodeAtlas.Diagram.Communication
import CodeAtlas.Diagram.Sequence
import CodeAtlas.Proofs.Diagram.PlainSchema

/-!
# Diagrams of messages declare who takes part before the messages

Sequence and communication diagrams first declare their participants and then draw the messages between them.

* `Sequence.isCuttable_ofFlows`, `Sequence.isCuttable_ofEndpoints`: messages of flows, and calls of endpoints;
* **`Communication.isScoped_lines`**: the communication diagram of a schema whose names are texts.
-/

namespace CodeAtlas

open List Value Text

open Loose (of_bind of_pure mem_of_mapM)

/-! ### Atoms in order -/

namespace Atom

theorem forall₂_of_mapM {β : Type} {f : Atom → Option β} {as : List Atom} {bs : List β} (h : as.mapM f = some bs) :
    Forall₂ (fun a b => f a = some b) as bs := by
  induction as generalizing bs with
  | nil =>
    cases h
    exact .nil
  | cons a as ih =>
    rw [mapM_cons] at h
    obtain ⟨b, hb, h⟩ := Option.bind_eq_some_iff.mp h
    obtain ⟨rest, hrest, h⟩ := Option.bind_eq_some_iff.mp h
    cases h
    exact .cons hb (ih hrest)

theorem sorted_perm {as bs : List Atom} (h : sorted as = .ok bs) : bs.Perm as := by
  unfold sorted at h
  split at h
  · cases h
    exact .refl _
  · cases h
    exact .refl _
  next a b rest =>
    dsimp only at h
    generalize a :: b :: rest = as at h
    split at h
    next ts hts =>
      cases h
      have htexts : Forall₂ (fun a t => a = .text t) as ts :=
        (forall₂_of_mapM hts).imp fun a t ht => atom.inj (text?_eq_some_iff.mp ht)
      rw [← forall₂_map_right_iff, forall₂_eq_eq_eq] at htexts
      rw [htexts]
      exact (mergeSort_perm ts _).map _
    next ns _ hns =>
      cases h
      have hfst : (as.zip ns).map (·.1) = as := map_fst_zip (forall₂_of_mapM hns).length_eq.le
      nth_rewrite 2 [← hfst]
      exact (mergeSort_perm (as.zip ns) _).map _
    next => cases h

theorem mem_insertInto_iff {a b : Atom} (hb : (atom b).isTextOrNull) {set : List Atom} :
    a ∈ b.insertInto set ↔ a = b ∨ a ∈ set := by
  unfold insertInto
  split
  next hin =>
    obtain ⟨c, hc, hsame⟩ := any_eq_true.mp hin
    obtain rfl := eq_of_same hb hsame
    exact ⟨.inr, fun h => h.elim (fun heq => heq ▸ hc) id⟩
  next => simp [or_comm]

theorem mem_foldl_insertInto_iff {a : Atom} {names : List Atom} (h : ∀ b ∈ names, (atom b).isTextOrNull)
    (set : List Atom) : a ∈ names.foldl (fun set b => b.insertInto set) set ↔ a ∈ names ∨ a ∈ set := by
  induction names generalizing set with
  | nil => simp
  | cons b names ih =>
    obtain ⟨hb, hnames⟩ := forall_mem_cons.mp h
    rw [foldl_cons, ih hnames, mem_insertInto_iff hb, mem_cons, or_left_comm, or_assoc]

end Atom

namespace Sequence

variable {style : Style} {schema endpoint : Value} {l : Line} {ls : List Line} {s t : String}

/-! ### Participants -/

theorem isOneLine_identifier (h : Text.isOneLine s) : Text.isOneLine (identifier s) := by
  have hplain : Text.isOneLine (Identifier.plain s) := by
    rw [Identifier.plain, isOneLine_ofList, Chars.isOneLine_iff]
    intro c hc
    obtain ⟨d, hd, rfl⟩ := mem_map.mp hc
    split
    · exact Chars.isOneLine_iff.mp h d hd
    · decide
  unfold identifier
  rw [isOneLine_append, isOneLine_append, hplain]
  split <;> rfl

theorem isPlain_identifier_append (hs : Text.isOneLine s) (ht : Text.isOneLine t) :
    Text.isPlain (identifier s ++ t) := by
  have hone : Text.isOneLine (identifier s ++ t) := by
    rw [isOneLine_append, isOneLine_identifier hs, ht]
    rfl
  rw [isPlain_iff]
  refine ⟨hone, ?_⟩
  unfold identifier
  rw [String.append_assoc, String.append_assoc]
  split <;> exact SizeLimit.opensNote_append (by decide) _

variable {v endpoints : Value} {flow : Flow} {fs : List Value} {opening : List Line}

theorem isOneLine_participant (hv : v.isPlain) (h : participant v = .ok s) : Text.isOneLine s := by
  obtain ⟨_, _, h⟩ := of_bind h
  exact isOneLine_of_textFor hv h

theorem isSafe_declaration (h : Text.isOneLine s) : (declaration s).IsSafe := by
  refine Line.isSafe_declares (isOneLine_identifier h) ?_
  rw [isOneLine_append, isOneLine_append, h]
  rfl

/-! ### Flows -/

structure Flow.IsPlain (flow : Flow) : Prop where
  source : flow.source.isPlain = true
  target : flow.target.isPlain = true
  message : flow.message.isPlain = true
  response : flow.response.isPlain = true
  note : flow.note.isPlain = true

theorem Flow.isPlain_ofValue (hv : v.isPlain) (h : Flow.ofValue v = .ok flow) : flow.IsPlain := by
  obtain ⟨source, hsource, h⟩ := of_bind h
  obtain ⟨target, htarget, h⟩ := of_bind h
  obtain ⟨message, hmessage, h⟩ := of_bind h
  obtain ⟨response, hresponse, h⟩ := of_bind h
  obtain ⟨note, hnote, h⟩ := of_bind h
  obtain ⟨kind, _, h⟩ := of_bind h
  cases h
  exact ⟨isPlain_of_firstOf hv (by decide) hsource, isPlain_of_firstOf hv (by decide) htarget,
    isPlain_of_firstOf hv (by decide) hmessage, isPlain_of_get hv hresponse, isPlain_of_get hv hnote⟩

/-- The lines for a message between two participants. -/
inductive FlowLine (flow : Flow) (s t : String) : Line → Prop
  | message {arrow : String} (harrow : arrow ∈ ["->>", "-)"]) :
    FlowLine flow s t (.joins (identifier s) arrow (identifier t) (": " ++ flow.message.display))
  | note : FlowLine flow s t
    (.plain ("note over " ++ identifier s ++ "," ++ identifier t ++ ": " ++ flow.note.display))
  | response : FlowLine flow s t (.joins (identifier t) "-->>" (identifier s) (": " ++ flow.response.display))
  | gap : FlowLine flow s t .empty

theorem flowLines_ok (h : flowLines flow = .ok ls) : ∃ s t, participant flow.source = .ok s ∧
    participant flow.target = .ok t ∧ (∀ l ∈ ls, FlowLine flow s t l) ∧ Line.EndsEmpty ls := by
  obtain ⟨kind, _, h⟩ := of_bind h
  obtain ⟨s, hs, h⟩ := of_bind h
  obtain ⟨t, ht, h⟩ := of_bind h
  cases h
  refine ⟨s, t, hs, ht, fun l hl => ?_, .inr ⟨_, rfl⟩⟩
  simp only [mem_append, mem_singleton] at hl
  rcases hl with ((rfl | hl) | hl) | rfl
  · exact .message (by split <;> decide)
  · split at hl
    · cases mem_singleton.mp hl
      exact .note
    · cases hl
  · split at hl
    · cases mem_singleton.mp hl
      exact .response
    · cases hl
  · exact .gap

theorem FlowLine.ends_subset (h : FlowLine flow s t l) : l.ends ⊆ [identifier s, identifier t] := by
  cases h with
  | message => exact List.Subset.refl _
  | note => exact nil_subset _
  | response => simp
  | gap => exact nil_subset _

theorem FlowLine.isSafe (hflow : flow.IsPlain) (hs : Text.isOneLine s)
    (ht : Text.isOneLine t) (h : FlowLine flow s t l) : l.IsSafe := by
  have harrow : ∀ {a b arrow : String} {v : Value}, Text.isOneLine a → Text.isOneLine b →
      Text.isOneLine arrow = true → v.isPlain = true →
      Text.isPlain (identifier a ++ arrow ++ identifier b ++ (": " ++ v.display)) = true := by
    intro a b arrow v ha hb harrow hv
    rw [String.append_assoc, String.append_assoc]
    refine isPlain_identifier_append ha ?_
    simp only [isOneLine_append, harrow, isOneLine_identifier hb, isOneLine_display hv]
    rfl
  cases h with
  | message hmem =>
    rename_i arrow
    have hboth : '-' ∈ arrow.toList ∧ Text.isOneLine arrow := by
      revert arrow
      decide
    exact Line.isSafe_joins (.inl rfl) hboth.1 (harrow hs ht hboth.2 hflow.message)
  | note =>
    simp only [String.append_assoc]
    refine Line.isSafe_plain (isPlain_append (by decide) ?_)
    simp only [isOneLine_append, isOneLine_identifier hs, isOneLine_identifier ht, isOneLine_display hflow.note]
    rfl
  | response => exact Line.isSafe_joins (.inl rfl) (by decide) (harrow ht hs (by decide) hflow.response)
  | gap => exact Line.isSafe_plain (by decide)

theorem ofFlows_ok (h : ofFlows fs = .ok ls) : ∃ (names : List String) (messages : List (List Line)),
    ls = names.map declaration ++ [.empty] ++ messages.flatten ∧
      (∀ s ∈ names, ∃ f ∈ fs, ∃ flow, Flow.ofValue f = .ok flow ∧
        (participant flow.source = .ok s ∨ participant flow.target = .ok s)) ∧
      ∀ own ∈ messages, ∃ f ∈ fs, ∃ flow, Flow.ofValue f = .ok flow ∧ ∃ s ∈ names, ∃ t ∈ names,
        (∀ l ∈ own, FlowLine flow s t l) ∧ Line.EndsEmpty own := by
  obtain ⟨drawn, hdrawn, h⟩ := of_bind h
  obtain ⟨names, hnames, h⟩ := of_bind h
  obtain ⟨messages, hmessages, h⟩ := of_bind h
  cases h
  have hflow : ∀ flow ∈ drawn, ∃ f ∈ fs, Flow.ofValue f = .ok flow := by
    intro flow hflow
    obtain ⟨f, hf, hread⟩ := mem_of_mapM hdrawn hflow
    exact ⟨f, mem_of_mem_take hf, hread⟩
  refine ⟨names.flatten.eraseDups, messages, rfl, fun s hs => ?_, fun own hown => ?_⟩
  · obtain ⟨pair, hpair, hs⟩ := mem_flatten.mp (mem_eraseDups.mp hs)
    obtain ⟨flow, hmem, hpair⟩ := mem_of_mapM hnames hpair
    obtain ⟨a, ha, hpair⟩ := of_bind hpair
    obtain ⟨b, hb, hpair⟩ := of_bind hpair
    cases hpair
    obtain ⟨f, hf, hread⟩ := hflow flow hmem
    simp only [mem_cons, not_mem_nil, or_false] at hs
    rcases hs with rfl | rfl
    · exact ⟨f, hf, flow, hread, .inl ha⟩
    · exact ⟨f, hf, flow, hread, .inr hb⟩
  · obtain ⟨flow, hmem, hlines⟩ := mem_of_mapM hmessages hown
    obtain ⟨f, hf, hread⟩ := hflow flow hmem
    obtain ⟨s, t, hs, ht, hown, hends⟩ := flowLines_ok hlines
    obtain ⟨pair, hpair, hboth⟩ := Loose.exists_of_mapM hnames hmem
    rw [hs, ht] at hboth
    cases hboth
    have hnamed : ∀ r ∈ [s, t], r ∈ names.flatten.eraseDups := fun r hr =>
      mem_eraseDups.mpr (mem_flatten_of_mem hpair hr)
    exact ⟨f, hf, flow, hread, s, hnamed s (by simp), t, hnamed t (by simp), hown, hends⟩

theorem isCuttable_ofFlows (hopening : ∀ l ∈ opening, ∃ s, l = .plain s)
    (hfs : ∀ f ∈ fs, f.isPlain) (h : ofFlows fs = .ok ls) : IsCuttable opening ls := by
  obtain ⟨names, messages, rfl, hnames, hmessages⟩ := ofFlows_ok h
  have hone : ∀ s ∈ names, Text.isOneLine s := by
    intro s hs
    obtain ⟨f, hf, flow, hread, hs | hs⟩ := hnames s hs
    · exact isOneLine_participant (Flow.isPlain_ofValue (hfs f hf) hread).source hs
    · exact isOneLine_participant (Flow.isPlain_ofValue (hfs f hf) hread).target hs
  have hdeclared : ∀ s ∈ names, identifier s ∈ declaredNames (names.map declaration ++ [.empty]) := fun s hs =>
    mem_declaredNames (mem_append_left _ (mem_map_of_mem hs)) rfl
  refine .of_declarations hopening (fun l hl => ?_) (fun l hl => ?_) (.inr ⟨_, rfl⟩) (.flatten fun own hown => ?_)
  · rcases mem_append.mp hl with hl | hl
    · obtain ⟨s, hs, rfl⟩ := mem_map.mp hl
      exact ⟨isSafe_declaration (hone s hs), rfl⟩
    · cases mem_singleton.mp hl
      exact ⟨Line.isSafe_plain (by decide), rfl⟩
  · obtain ⟨own, hown, hl⟩ := mem_flatten.mp hl
    obtain ⟨f, hf, flow, hread, s, hs, t, ht, hlines, _⟩ := hmessages own hown
    refine ⟨(hlines l hl).isSafe (Flow.isPlain_ofValue (hfs f hf) hread) (hone s hs) (hone t ht), ?_⟩
    have hboth := pair_subset (hdeclared s hs) (hdeclared t ht)
    exact List.Subset.trans (hlines l hl).ends_subset hboth
  · obtain ⟨_, _, _, _, _, _, _, _, _, hends⟩ := hmessages own hown
    exact hends

/-! ### Endpoints -/

theorem isPlain_answerer (he : endpoint.isPlain) (h : answerer endpoint = .ok v) : v.isPlain := by
  obtain ⟨controller, hcontroller, h⟩ := of_bind h
  exact isPlain_of_getD he (isPlain_of_getD he (by decide) hcontroller) h

theorem isTextOrNull_answerer (he : endpoint.hasTextNames) (h : answerer endpoint = .ok v) :
    v.isTextOrNull := by
  obtain ⟨controller, hcontroller, h⟩ := of_bind h
  exact isTextOrNull_of_getD he (by decide) (isTextOrNull_of_getD he (by decide) rfl hcontroller) h

theorem callLines_ok (he : endpoint.isPlain) (h : callLines endpoint = .ok ls) : ∃ v,
    answerer endpoint = .ok v ∧ (∀ l ∈ ls, l.IsSafe ∧ l.ends ⊆ ["User", v.display]) ∧ Line.EndsEmpty ls := by
  obtain ⟨method, hmethod, h⟩ := of_bind h
  obtain ⟨path, hpath, h⟩ := of_bind h
  obtain ⟨v, hv, h⟩ := of_bind h
  cases h
  refine ⟨v, hv, fun l hl => ?_, .inr (getLast?_eq_some_iff.mp rfl)⟩
  have hplain := isPlain_answerer he hv
  have hname := isOneLine_display hplain
  have hmethod := isOneLine_display (isPlain_of_getD he (by decide) hmethod)
  have hpath := isOneLine_display (isPlain_of_getD he (by decide) hpath)
  simp only [mem_cons, not_mem_nil, or_false] at hl
  rcases hl with rfl | rfl | rfl | rfl | rfl
  · refine ⟨Line.isSafe_joins (.inl rfl) (by decide) ?_, List.Subset.refl _⟩
    simp only [String.append_assoc]
    refine isPlain_append (by decide) ?_
    simp only [isOneLine_append, hname, hmethod, hpath]
    rfl
  · exact ⟨Line.isSafe_plain (isPlain_append (by decide) hname), nil_subset _⟩
  · refine ⟨Line.isSafe_joins (.inl rfl) (by decide) (isPlain_iff.mpr ⟨?_, ?_⟩), by simp⟩
    · simp only [isOneLine_append, hname]
      rfl
    · simp only [String.append_assoc]
      exact SizeLimit.opensNote_append_word (opensNote_display hplain) rfl (by decide) (by decide) (by decide)
        (by decide)
  · exact ⟨Line.isSafe_plain (isPlain_append (by decide) hname), nil_subset _⟩
  · exact ⟨Line.isSafe_plain (by decide), nil_subset _⟩

theorem ofEndpoints_ok {items : List Value} (hitems : endpoints.items = .ok items)
    (hnames : ∀ e ∈ items, e.hasTextNames) (h : ofEndpoints endpoints = .ok ls) :
    ∃ (ordered : List Atom) (calls : List (List Line)),
      ls = [.declares .actor "User" "", .empty] ++ ordered.map (fun a => .declares .participant a.display "") ++
        [.empty] ++ calls.flatten ∧
      (∀ a ∈ ordered, ∃ e ∈ items, answerer e = .ok (.atom a)) ∧
      ∀ own ∈ calls, ∃ e ∈ items, callLines e = .ok own ∧ ∃ a ∈ ordered, answerer e = .ok (.atom a) := by
  obtain ⟨all, hall, h⟩ := of_bind h
  obtain rfl : all = items := Except.ok.inj (hall.symm.trans hitems)
  obtain ⟨names, hanswerers, h⟩ := of_bind h
  obtain ⟨ordered, hordered, h⟩ := of_bind h
  obtain ⟨first, hfirst, h⟩ := of_bind h
  obtain ⟨taken, htaken, h⟩ := of_bind h
  obtain ⟨calls, hcalls, h⟩ := of_bind h
  cases h
  have hanswerer : ∀ a ∈ names, ∃ e ∈ all, answerer e = .ok (.atom a) := by
    intro a ha
    obtain ⟨e, he, hea⟩ := mem_of_mapM hanswerers ha
    obtain ⟨v, hv, hkey⟩ := of_bind hea
    exact ⟨e, he, hv.trans (congrArg _ (eq_atom_of_key hkey))⟩
  have htexts : ∀ a ∈ names, (atom a).isTextOrNull := by
    intro a ha
    obtain ⟨e, he, hea⟩ := hanswerer a ha
    exact isTextOrNull_answerer (hnames e he) hea
  -- sorting and joining equal names neither adds nor loses one
  have hsame : ∀ a, a ∈ ordered ↔ a ∈ names := by
    intro a
    rw [(Atom.sorted_perm hordered).mem_iff, Atom.mem_foldl_insertInto_iff htexts]
    simp
  refine ⟨ordered, calls, rfl, fun a ha => hanswerer a ((hsame a).mp ha), fun own hown => ?_⟩
  obtain ⟨e, he, hlines⟩ := mem_of_mapM hcalls hown
  obtain ⟨ys, hys, rfl⟩ := items_takeFirst hfirst htaken
  obtain rfl : ys = all := Except.ok.inj (hys.symm.trans hall)
  have he := mem_of_mem_take he
  obtain ⟨a, ha, hea⟩ := Loose.exists_of_mapM hanswerers he
  obtain ⟨v, hv, hkey⟩ := of_bind hea
  exact ⟨e, he, hlines, a, (hsame a).mpr ha, hv.trans (congrArg _ (eq_atom_of_key hkey))⟩

theorem isCuttable_ofEndpoints (hopening : ∀ l ∈ opening, ∃ s, l = .plain s) (hendpoints : endpoints.isPlain)
    (hnames : ∀ items, endpoints.items = .ok items → ∀ e ∈ items, e.hasTextNames)
    (h : ofEndpoints endpoints = .ok ls) : IsCuttable opening ls := by
  obtain ⟨items, hitems, _⟩ := of_bind h
  obtain ⟨ordered, calls, rfl, hordered, hcalls⟩ := ofEndpoints_ok hitems (hnames items hitems) h
  have hplain : ∀ e ∈ items, e.isPlain := fun e he => isPlain_of_mem_items hendpoints hitems he
  have hcall : ∀ own ∈ calls, ∃ a ∈ ordered, (∀ l ∈ own, l.IsSafe ∧ l.ends ⊆ ["User", a.display]) ∧
      Line.EndsEmpty own := by
    intro own hown
    obtain ⟨e, he, hlines, a, ha, hea⟩ := hcalls own hown
    obtain ⟨v, hv, hown⟩ := callLines_ok (hplain e he) hlines
    obtain rfl : v = .atom a := Except.ok.inj (hv.symm.trans hea)
    exact ⟨a, ha, hown⟩
  refine .of_declarations hopening (fun l hl => ?_) (fun l hl => ?_) (.inr ⟨_, rfl⟩) (.flatten fun own hown => ?_)
  · simp only [mem_append, mem_cons, not_mem_nil, or_false] at hl
    rcases hl with ((rfl | rfl) | hl) | rfl
    · exact ⟨Line.isSafe_declares (by decide) (by decide), rfl⟩
    · exact ⟨Line.isSafe_plain (by decide), rfl⟩
    · obtain ⟨a, ha, rfl⟩ := mem_map.mp hl
      obtain ⟨e, he, hea⟩ := hordered a ha
      exact ⟨Line.isSafe_declares (isOneLine_display (isPlain_answerer (hplain e he) hea)) (by decide), rfl⟩
    · exact ⟨Line.isSafe_plain (by decide), rfl⟩
  · obtain ⟨own, hown, hl⟩ := mem_flatten.mp hl
    obtain ⟨a, ha, hlines, _⟩ := hcall own hown
    refine ⟨(hlines l hl).1, List.Subset.trans (hlines l hl).2 fun n hn => ?_⟩
    simp only [mem_cons, not_mem_nil, or_false] at hn
    rcases hn with rfl | rfl
    · exact mem_declaredNames (l := .declares .actor "User" "") (by simp) rfl
    · refine mem_declaredNames (l := .declares .participant a.display "") ?_ rfl
      exact mem_append_left _ (mem_append_right _ (mem_map_of_mem ha))
  · obtain ⟨_, _, _, hends⟩ := hcall own hown
    exact hends

/-! ### The diagram -/

theorem isPlain_flows {f : Value} (hschema : schema.isPlain) (h : flows schema = .ok fs)
    (hf : f ∈ fs) : f.isPlain := by
  obtain ⟨found, hfound, h⟩ := of_bind h
  cases h
  obtain ⟨own, hown, hf⟩ := mem_flatten.mp hf
  obtain ⟨key, _, hkey⟩ := mem_of_mapM hfound hown
  obtain ⟨v, hv, hkey⟩ := of_bind hkey
  have hplain := isPlain_of_get hschema hv
  split at hkey
  · cases hkey
    exact isPlain_list_iff.mp hplain f (mem_of_mem_filter hf)
  · cases hkey
    cases hf

theorem isCuttable_plainRequest (hopening : ∀ l ∈ opening, ∃ s, l = .plain s) : IsCuttable opening plainRequest := by
  refine ⟨hopening, fun l hl => ?_, .inr (getLast?_eq_some_iff.mp rfl), ?_⟩
  · simp only [plainRequest, mem_cons, not_mem_nil, or_false] at hl
    rcases hl with rfl | rfl | rfl | rfl | rfl
    · exact Line.isSafe_declares (by decide) (by decide)
    · exact Line.isSafe_declares (by decide) (by decide)
    · exact Line.isSafe_joins (.inl rfl) (by decide) (by decide)
    · exact Line.isSafe_joins (.inl rfl) (by decide) (by decide)
    · exact Line.isSafe_plain (by decide)
  · simp [plainRequest, IsScoped, Line.declared?]

/-- The lines before the participants, without the empty one at their end. -/
def openingLines (style : Style) : List Line := style.opening ++ [.plain "' Sequence Diagram"]

theorem eq_plain_of_mem_openingLines (hl : l ∈ openingLines style) : ∃ s, l = .plain s := by
  simp only [openingLines, Style.opening, mem_append, mem_cons, not_mem_nil, or_false] at hl
  rcases hl with (rfl | rfl) | rfl
  · exact ⟨_, rfl⟩
  · exact ⟨_, rfl⟩
  · exact ⟨_, rfl⟩

theorem lines_ok (h : lines style schema = .ok ls) : ∃ body,
    ls = openingLines style ++ [.empty] ++ body ++ [.close] ∧
      ((∃ fs, flows schema = .ok fs ∧ ofFlows fs = .ok body) ∨
        (∃ endpoints, schema.getD "endpoints" (.list []) = .ok endpoints ∧ ofEndpoints endpoints = .ok body) ∨
        body = plainRequest) := by
  have hshape : ∀ body : List Line, style.opening ++ [.plain "' Sequence Diagram", .empty] ++ body ++ [.close] =
      openingLines style ++ [.empty] ++ body ++ [.close] := by
    intro body
    simp [openingLines]
  obtain ⟨fs, hfs, h⟩ := of_bind h
  obtain ⟨endpoints, hendpoints, h⟩ := of_bind h
  split at h
  · obtain ⟨body, hbody, h⟩ := of_bind h
    cases h
    exact ⟨body, hshape body, .inl ⟨fs, hfs, hbody⟩⟩
  · split at h
    · obtain ⟨body, hbody, h⟩ := of_bind h
      cases h
      exact ⟨body, hshape body, .inr (.inl ⟨endpoints, hendpoints, hbody⟩)⟩
    · obtain ⟨body, hbody, h⟩ := of_bind h
      cases h
      exact ⟨body, hshape body, .inr (.inr (of_pure hbody).symm)⟩

/-- **The sequence diagram of a plain schema declares participants before their messages, also when it is cut.** -/
theorem isCuttable_lines (hschema : schema.isPlain) (hnames : Schema.hasTextNames schema)
    (h : lines style schema = .ok ls) :
    ∃ body, IsCuttable (openingLines style) body ∧ ls = openingLines style ++ [.empty] ++ body ++ [.close] := by
  have hopening : ∀ l ∈ openingLines style, ∃ s, l = .plain s := fun l hl => eq_plain_of_mem_openingLines hl
  obtain ⟨body, rfl, ⟨fs, hfs, hbody⟩ | ⟨endpoints, hendpoints, hbody⟩ | rfl⟩ := lines_ok h
  · exact ⟨body, isCuttable_ofFlows hopening (fun f hf => isPlain_flows hschema hfs hf) hbody, rfl⟩
  · refine ⟨body, isCuttable_ofEndpoints hopening (isPlain_of_getD hschema rfl hendpoints) ?_ hbody, rfl⟩
    intro items hitems e he
    rcases hasField_of_getD hendpoints with rfl | hfield
    · cases hitems
      cases he
    · exact Schema.hasTextNames_of_mem hnames hfield hitems he
  · exact ⟨plainRequest, isCuttable_plainRequest hopening, rfl⟩

end Sequence

namespace Communication

variable {style : Style} {schema : Value} {l : Line} {ls : List Line} {names : List Atom}

theorem mem_of_takesPart {v : Value} (hv : v.isTextOrNull) (h : takesPart names v) :
    v.display ∈ names.map Atom.display := by
  obtain ⟨a, ha, hsame⟩ := any_eq_true.mp h
  cases v with
  | atom b =>
    obtain rfl := eq_of_same hv hsame
    exact mem_map_of_mem ha
  | _ => cases hv

theorem ends_messageLines {n : Nat} {relations : List Value} (hrelations : ∀ r ∈ relations, r.hasTextNames)
    (h : messageLines names n relations = .ok ls) (hl : l ∈ ls) : l.ends ⊆ names.map Atom.display := by
  induction relations generalizing n ls with
  | nil =>
    cases h
    cases hl
  | cons r rs ih =>
    have hrest : ∀ {n ls}, messageLines names n rs = .ok ls → l ∈ ls → l.ends ⊆ names.map Atom.display :=
      fun h hl => ih (fun q hq => hrelations q (mem_cons_of_mem r hq)) h hl
    obtain ⟨source, hsource, h⟩ := of_bind h
    obtain ⟨target, htarget, h⟩ := of_bind h
    split at h
    next hpart =>
      obtain ⟨words, _, h⟩ := of_bind h
      obtain ⟨rest, hlines, h⟩ := of_bind h
      cases h
      rw [Bool.and_eq_true] at hpart
      have hr := hrelations r mem_cons_self
      have hfrom := mem_of_takesPart (isTextOrNull_of_get hr (by decide) hsource) hpart.1
      have hto := mem_of_takesPart (isTextOrNull_of_get hr (by decide) htarget) hpart.2
      rcases mem_append.mp hl with hl | hl
      · rcases mem_cons.mp hl with rfl | hl
        · exact pair_subset hfrom hto
        · split at hl
          · cases mem_singleton.mp hl
            exact pair_subset hto hfrom
          · cases hl
      · exact hrest hlines hl
    next => exact hrest h hl

/-- Messages from class to class are drawn between those classes. -/
theorem ends_chainLines {n : Nat} {names : List String} (hl : l ∈ chainLines n names) : l.ends ⊆ names := by
  induction names generalizing n with
  | nil => cases hl
  | cons a names ih =>
    cases names with
    | nil => cases hl
    | cons b rest =>
      have hboth : [a, b] ⊆ a :: b :: rest := by simp
      have hback : [b, a] ⊆ a :: b :: rest := by simp
      rcases mem_append.mp hl with hl | hl
      · rcases mem_cons.mp hl with rfl | hl
        · exact hboth
        · split at hl
          · cases mem_singleton.mp hl
            exact hback
          · cases hl
      · exact List.Subset.trans (ih hl) (subset_cons_self a _)

theorem isScoped_participants {names : List String} {messages : List Line} (h : ∀ l ∈ messages, l.ends ⊆ names) :
    IsScoped [] (names.map (fun n => .declares .participant n "") ++ [.empty] ++ messages) := by
  refine isScoped_of_declarations (fun l hl => ?_) fun l hl => List.Subset.trans (h l hl) fun n hn => ?_
  · rcases mem_append.mp hl with hl | hl
    · obtain ⟨n, _, rfl⟩ := mem_map.mp hl
      rfl
    · cases mem_singleton.mp hl
      rfl
  · have hdeclared := mem_map_of_mem (f := fun n : String => Line.declares .participant n "") hn
    exact mem_declaredNames (mem_append_left _ hdeclared) rfl

/-- **A communication diagram declares participants before their messages.** -/
theorem isScoped_lines (hnames : Schema.hasTextNames schema) (h : lines style schema = .ok ls) :
    IsScoped [] ls := by
  have hframe : ∀ {body : List Line}, IsScoped [] body →
      IsScoped [] (style.opening ++ [.plain "' Communication Diagram", .empty] ++ body ++ [.close]) := by
    intro body hbody
    rw [isScoped_append, isScoped_append]
    refine ⟨⟨.of_ends_nil ?_, hbody.mono (nil_subset _)⟩, .of_ends_nil (by simp)⟩
    simp [Style.opening]
  obtain ⟨relations, hrelations, h⟩ := of_bind h
  obtain ⟨classes, _, h⟩ := of_bind h
  split at h
  · obtain ⟨body, hbody, h⟩ := of_bind h
    cases h
    obtain ⟨items, hitems, hbody⟩ := of_bind hbody
    obtain ⟨names, _, hbody⟩ := of_bind hbody
    obtain ⟨first, hfirst, hbody⟩ := of_bind hbody
    obtain ⟨taken, htaken, hbody⟩ := of_bind hbody
    obtain ⟨messages, hmessages, hbody⟩ := of_bind hbody
    cases hbody
    obtain ⟨all, hall, rfl⟩ := items_takeFirst hfirst htaken
    have htext : ∀ r ∈ all.take relationLimit, r.hasTextNames := by
      intro r hr
      rcases hasField_of_firstOf hrelations with rfl | hfield
      · cases hall
        cases hr
      · exact Schema.hasTextNames_of_mem hnames hfield hall (mem_of_mem_take hr)
    have hscoped := isScoped_participants fun l hl => ends_messageLines htext hmessages hl
    rw [map_map] at hscoped
    exact hframe hscoped
  · split at h
    · obtain ⟨body, hbody, h⟩ := of_bind h
      cases h
      obtain ⟨names, _, hbody⟩ := of_bind hbody
      cases hbody
      exact hframe (isScoped_participants fun l hl => ends_chainLines hl)
    · obtain ⟨body, hbody, h⟩ := of_bind h
      cases h
      cases hbody
      refine hframe ?_
      simp [plainExchange, IsScoped, Line.declared?]

end Communication

end CodeAtlas
