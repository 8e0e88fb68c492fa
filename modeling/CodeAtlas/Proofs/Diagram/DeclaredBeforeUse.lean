import CodeAtlas.Diagram.Kind
import CodeAtlas.Proofs.Diagram.ClassScope
import CodeAtlas.Proofs.Diagram.MessageScope
import CodeAtlas.Proofs.Diagram.UseCaseScope

/-!
# Names are declared before they are used

In the diagrams of four kinds every name that an arrow joins is declared by an earlier line, also after a diagram was
cut.

* **`drawSchema_declaredBeforeUse`**: for plain schemas whose names are texts the lines that are kept are in order.
-/

namespace CodeAtlas

open List SizeLimit

namespace DiagramKind

/-- The kinds of diagrams with arrows between declared names. -/
def relating : List DiagramKind := [.class, sequence, usecase, communication]

def kept (kind : DiagramKind) (theme : String) (lines : List Line) : List Line :=
  if kind.isLimited then limitLines theme lines else lines

variable {kind : DiagramKind} {style : Style} {schema languages : Value} {text : String} {lines : List Line}

theorem isScoped_kept (hkind : kind ∈ relating) (hplain : schema.isPlain)
    (hnames : Schema.hasTextNames schema) (h : kind.lines style schema languages = .ok lines) :
    IsScoped [] (kind.kept style.theme lines) := by
  simp only [relating, mem_cons, not_mem_nil, or_false] at hkind
  rcases hkind with rfl | rfl | rfl | rfl
  · obtain ⟨body, hbody, rfl⟩ := ClassDiagram.isCuttable_lines hplain hnames h
    exact hbody.isScoped style.theme
  · obtain ⟨body, hbody, rfl⟩ := Sequence.isCuttable_lines hplain hnames h
    exact hbody.isScoped style.theme
  · exact UseCaseDiagram.isScoped_lines h
  · exact Communication.isScoped_lines hnames h

theorem exists_close (hlimited : kind.isLimited) (h : kind.lines style schema languages = .ok lines) :
    ∃ ls, lines = ls ++ [.close] := by
  cases kind with
  | «class» =>
    obtain ⟨_, parts, _, drawn, _, _, _, rfl, _⟩ := ClassDiagram.lines_ok h
    exact ⟨_, rfl⟩
  | sequence =>
    obtain ⟨body, rfl, _⟩ := Sequence.lines_ok h
    exact ⟨_, rfl⟩
  | _ => cases hlimited

theorem exists_render (hlimited : kind.isLimited) (h : kind.lines style schema languages = .ok lines) :
    ∃ text, kind.render style schema languages = .ok text ∧
      text = limitSize style.theme (Line.render lines) 2000 8000 := by
  rw [render, h, Loose.ok_bind]
  exact ⟨_, rfl, if_pos hlimited⟩

theorem render_ok (h : kind.render style schema languages = .ok text) :
    ∃ lines, kind.lines style schema languages = .ok lines ∧ text = Line.render (kind.kept style.theme lines) := by
  obtain ⟨lines, hlines, h⟩ := Loose.of_bind h
  cases h
  refine ⟨lines, hlines, ?_⟩
  unfold kept
  split
  next hlimited =>
    obtain ⟨ls, rfl⟩ := exists_close hlimited hlines
    exact limitSize_render style.theme ls
  next => rfl

end DiagramKind

variable {config schema languages : Value} {kind : DiagramKind} {word text : String}
  {setOrder : Reordering Atom}

theorem drawSchema_eq {s : Style} (hstyle : Style.ofValue config setOrder = .ok s) (hschema : schema.isRecord)
    (hword : DiagramKind.ofWord? (Text.lower word) = some kind) :
    drawSchema config schema (.text word) languages setOrder = kind.render s schema languages := by
  unfold drawSchema
  rw [hstyle, Loose.ok_bind, hschema, show (Value.text word).lower = .ok (Text.lower word) from rfl]
  simp only [Bool.not_true, Bool.false_eq_true, if_false, Loose.ok_bind, hword]

theorem drawSchema_ok (hword : DiagramKind.ofWord? (Text.lower word) = some kind)
    (h : drawSchema config schema (.text word) languages setOrder = .ok text) :
    ∃ style, Style.ofValue config setOrder = .ok style ∧ kind.render style schema languages = .ok text := by
  obtain ⟨style, hstyle, h⟩ := Loose.of_bind h
  dsimp only at h
  split at h
  · cases h
  · obtain ⟨w, hw, h⟩ := Loose.of_bind h
    obtain rfl : Text.lower word = w := Loose.of_pure hw
    rw [hword] at h
    exact ⟨style, hstyle, h⟩

/-- **Names are declared before they are used.** -/
theorem drawSchema_declaredBeforeUse (hkind : kind ∈ DiagramKind.relating)
    (hword : DiagramKind.ofWord? (Text.lower word) = some kind) (hplain : schema.isPlain = true)
    (hnames : Schema.hasTextNames schema = true)
    (h : drawSchema config schema (.text word) languages setOrder = .ok text) :
    ∃ style lines, Style.ofValue config setOrder = .ok style ∧ kind.lines style schema languages = .ok lines ∧
      text = Line.render (kind.kept style.theme lines) ∧ DeclaredBeforeUse (kind.kept style.theme lines) := by
  obtain ⟨style, hstyle, hrender⟩ := drawSchema_ok hword h
  obtain ⟨lines, hlines, htext⟩ := DiagramKind.render_ok hrender
  exact ⟨style, lines, hstyle, hlines, htext,
    declaredBeforeUse_iff.mpr (DiagramKind.isScoped_kept hkind hplain hnames hlines)⟩

def loginSchema : Value :=
  .ofFields [("usecases", .list [.ofFields [("name", .text "Log in"), ("actor", .text "Guest"),
    ("includes", .texts ["Check password"])]])]

theorem drawSchema_declaredBeforeUse_login : ∃ text lines,
    drawSchema .null loginSchema (.text "Use-Case") .null = .ok text ∧ text = Line.render lines ∧
      .joins "UC_Log_in" " ..> " "UC_Check_password" " : <<include>>" ∈ lines ∧ DeclaredBeforeUse lines := by
  have hok : (drawSchema .null loginSchema (.text "Use-Case") .null).isOk = true := by decide +kernel
  cases htext : drawSchema .null loginSchema (.text "Use-Case") .null with
  | error e =>
    rw [htext] at hok
    cases hok
  | ok text =>
    obtain ⟨style, lines, hstyle, hlines, hrender, hdeclared⟩ := drawSchema_declaredBeforeUse (by decide)
      (by decide +kernel : DiagramKind.ofWord? (Text.lower "Use-Case") = some .usecase) (by decide +kernel)
      (by decide +kernel) htext
    obtain rfl : Style.mk "plain" true true true .ascending = style := Except.ok.inj hstyle
    have hmem : .joins "UC_Log_in" " ..> " "UC_Check_password" " : <<include>>" ∈
        (UseCaseDiagram.lines {} loginSchema).toOption.getD [] := by decide +kernel
    rw [show UseCaseDiagram.lines {} loginSchema = .ok lines from hlines] at hmem
    exact ⟨text, lines, rfl, hrender, hmem, hdeclared⟩

/-! ### A name that is taken for the note of a cut -/

/-- A name that starts with a blank and then like the note of a cut. -/
def noteName : String := " note as WARNING"

/-- Two endpoints at which the class of that name answers. -/
def callsSchema (path : String) : Value :=
  .ofFields [("endpoints", .list [.ofFields [("class", .text noteName)],
    .ofFields [("class", .text noteName), ("path", .text path)]])]

/-- The lines above the first arrow that starts with the name. -/
def callsHead : List Line :=
  [.plain "@startuml", .plain "!theme plain", .plain "' Sequence Diagram", .empty, .declares .actor "User" "", .empty,
    .declares .participant noteName "", .empty, .joins "User" " -> " noteName ": GET /",
    .plain ("activate " ++ noteName)]

def callsMiddle : List Line :=
  [.joins noteName " --> " "User" ": Response", .plain ("deactivate " ++ noteName), .empty]

def secondCall (path : String) : Line := .joins "User" " -> " noteName (": GET " ++ path)

def callsEnd : List Line :=
  [.plain ("activate " ++ noteName), .joins noteName " --> " "User" ": Response", .plain ("deactivate " ++ noteName),
    .empty, .close]

/-- The lines of the diagram, with some of those above the first arrow. -/
def callsAfter (head : List Line) (path : String) : List Line := head ++ (callsMiddle ++ secondCall path :: callsEnd)

theorem lines_callsSchema (path : String) : Sequence.lines {} (callsSchema path) = .ok (callsAfter callsHead path) :=
  rfl

theorem octets_callsAfter (head : List Line) (size : Nat)
    (hsize : octets ((head ++ callsMiddle ++ callsEnd).map Line.text) = size) (path : String) :
    octets ((callsAfter head path).map Line.text) = size + 31 + path.utf8ByteSize := by
  have hcall : (secondCall path).text.utf8ByteSize = 30 + path.utf8ByteSize := by
    simp only [secondCall, Line.text, String.utf8ByteSize_append, ← Nat.add_assoc]
    rfl
  rw [callsAfter, ← append_assoc, map_append, map_cons, octets_insert _ _ (by decide), ← map_append, hsize, hcall]
  omega

variable {path : String} (n : Nat)

/-- The arrow is taken for the note, and lines above it are dropped, the declaration of the name among them. -/
theorem shrink_calls (hsize : path.utf8ByteSize = 7733) :
    shrink Line.text 8000 (callsAfter callsHead path) = callsAfter (callsHead.take 6) path := by
  have hlength : headLength Line.text (callsAfter callsHead path) = callsHead.length := by
    have hhead : (callsHead.findIdx? fun l => startsNote l.text) = none := by decide
    have hnote : startsNote (Line.joins noteName " --> " "User" ": Response").text := by decide
    rw [headLength, callsAfter, findIdx?_append, hhead, callsMiddle, cons_append, findIdx?_cons, if_pos hnote]
    rfl
  have hdropped : shrinkHead Line.text 8000 8070 19 callsHead.reverse = (callsHead.take 6).reverse := by
    decide
  have hoctets := octets_callsAfter callsHead 306 (by decide +kernel) path
  unfold shrink
  dsimp only
  rw [hlength, hoctets, hsize, show (callsAfter callsHead path).length = 19 from rfl, callsAfter, take_left,
    drop_left, hdropped, reverse_reverse]
  rfl

theorem limitLines_calls (hone : Text.isOneLine path) (hsize : path.utf8ByteSize = 7733) :
    limitLines "plain" (callsAfter callsHead path) = callsAfter (callsHead.take 6) path := by
  have hpieces : ∀ l ∈ callsAfter callsHead path, Text.isOneLine l.text := by
    have hcall : Text.isOneLine (secondCall path).text := by
      simp only [secondCall, Line.text, Text.isOneLine_append, hone]
      decide
    simp only [callsAfter, forall_mem_append, forall_mem_cons]
    exact ⟨by decide, by decide, hcall, by decide⟩
  have hlength : ((callsAfter callsHead path).length : Int) ≤ 2000 := by
    rw [show (callsAfter callsHead path).length = 19 from rfl]
    omega
  have hfirst : firstLines Line.text .plain 2000 (callsAfter callsHead path) = callsAfter callsHead path :=
    firstLines_of_le (l := .close) hlength rfl (by decide)
  have hsmall := octets_callsAfter (callsHead.take 6) 218 (by decide +kernel) path
  unfold limitLines limited?
  dsimp only
  rw [Line.flatMap_pieces hpieces, hfirst, shrink_calls hsize, hsmall, hsize]
  rfl

@[irreducible] def pathOf (octets : Nat) : String := String.ofList (List.replicate octets 'x')

theorem isOneLine_pathOf : Text.isOneLine (pathOf n) := by
  rw [pathOf, Text.isOneLine_ofList, Chars.isOneLine_iff]
  intro c hc
  rw [eq_of_mem_replicate hc]
  decide

theorem startsWith_pathOf : Text.startsWith (pathOf n) "note as WARNING" = false := by
  simp only [Text.startsWith, pathOf, String.toList_ofList]
  cases n with
  | _ => rfl

theorem utf8ByteSize_pathOf : (pathOf n).utf8ByteSize = n := by
  unfold pathOf
  induction n with
  | zero => rfl
  | succ n ih =>
    rw [replicate_succ, ← singleton_append, String.ofList_append, String.utf8ByteSize_append, ih, Nat.add_comm]
    rfl

theorem drawSchema_calls (hone : Text.isOneLine path) (hsize : path.utf8ByteSize = 7733) :
    drawSchema .null (callsSchema path) (.text "sequence") .null =
      .ok (Line.render (callsAfter (callsHead.take 6) path)) := by
  have hword : DiagramKind.ofWord? (Text.lower "sequence") = some .sequence := by decide +kernel
  obtain ⟨text, hrender, htext⟩ :=
    DiagramKind.exists_render (by rfl : DiagramKind.sequence.isLimited) (lines_callsSchema path)
  rw [drawSchema_eq (s := {}) rfl rfl hword, hrender, htext, ← limitLines_calls hone hsize]
  exact congrArg Except.ok (limitSize_render "plain" (callsAfter callsHead path).dropLast)

/-- No text of the schema has a line break or begins like the note of a cut, but one begins so after a blank, and the
declaration of that name is cut while arrows from it stay. -/
theorem declaredBeforeUse_lost : ∃ schema : Value,
    schema.allTexts (fun s => Text.isOneLine s && !Text.startsWith s "note as WARNING") = true ∧
      Schema.hasTextNames schema = true ∧
      ∃ lines, drawSchema .null schema (.text "sequence") .null = .ok (Line.render lines) ∧
        .joins noteName " --> " "User" ": Response" ∈ lines ∧ noteName ∉ declaredNames lines ∧
        ¬ DeclaredBeforeUse lines := by
  have htexts : ∀ n, (callsSchema (pathOf n)).allTexts
      (fun s => Text.isOneLine s && !Text.startsWith s "note as WARNING") = true := by
    have hothers : ∀ s ∈ ["endpoints", "class", "path", noteName],
        (Text.isOneLine s && !Text.startsWith s "note as WARNING") = true := by decide +kernel
    intro n
    simp only [List.forall_mem_cons] at hothers
    simp only [callsSchema, Value.ofFields, Value.text, List.map_cons, List.map_nil, Value.allTexts, Value.allTextsIn,
      Value.allTextsInFields, Atom.allTexts, hothers, startsWith_pathOf, isOneLine_pathOf]
    rfl
  have hdeclared : ∀ path, noteName ∉ declaredNames (callsAfter (callsHead.take 6) path) := by
    intro path
    rw [show declaredNames (callsAfter (callsHead.take 6) path) = ["User"] from rfl]
    decide
  refine ⟨callsSchema (pathOf 7733), htexts 7733, rfl, callsAfter (callsHead.take 6) (pathOf 7733),
    drawSchema_calls (isOneLine_pathOf 7733) (utf8ByteSize_pathOf 7733), ?_, hdeclared _, fun h => ?_⟩
  · exact List.mem_append_right _ List.mem_cons_self
  · have hname := h (callsHead.take 6) _ _ rfl noteName List.mem_cons_self
    revert hname
    decide

end CodeAtlas
