import CodeAtlas.Analysis.Workbench
import CodeAtlas.Drafting.Draft

/-!
# Workloads that read source text, prompts and replies

There is one small program for each of four languages, with classes, relations and endpoints, and a class in Java that
grows with a number.  A workload reads the sample program of a language as often as asked and counts what was found.
-/

namespace CodeAtlas

namespace SampleProgram

def sourceOf (lines : List String) : String := Text.join "\n" lines ++ "\n"

def python : String := sourceOf [
  "from flask import Flask",
  "app = Flask(__name__)",
  "",
  "class Ledger:",
  "    def add(self, amount):",
  "        return amount",
  "",
  "class Account:",
  "    def __init__(self, owner):",
  "        self.owner = owner",
  "",
  "class Savings(Account):",
  "    def grow(self, rate):",
  "        return rate",
  "",
  "class Bank(Account):",
  "    def open(self):",
  "        return Savings(1)",
  "",
  "@app.route('/accounts')",
  "def accounts():",
  "    return []",
  "",
  "@app.get('/ledger')",
  "def ledger():",
  "    return 1",
  "",
  "@app.post('/ledger')",
  "def add():",
  "    return 1",
  "",
  "@app.put('/ledger')",
  "def put():",
  "    return 1",
  "",
  "@app.delete('/ledger')",
  "def drop():",
  "    return 1"]

def csharp : String := sourceOf [
  "using System;",
  "namespace Shop.Core \x7b",
  "  public interface IStore \x7b",
  "    void Save(int id);",
  "  \x7d",
  "  public abstract class Entity \x7b",
  "    public virtual int Key() \x7b return 1; \x7d",
  "  \x7d",
  "  public class OrderService : Entity, IStore \x7b",
  "    private Entity current;",
  "    private Entity previous;",
  "    [HttpGet(\"orders\")]",
  "    public void Save(int id) \x7b",
  "      this.current = new Entity();",
  "      Panel.Show(id);",
  "    \x7d",
  "    [HttpPost(\"orders\")]",
  "    public void Send(int id) \x7b Canvas.Paint(id); \x7d",
  "    [HttpDelete(\"orders/one\")]",
  "    public void Drop(int id) \x7b \x7d",
  "  \x7d",
  "\x7d"]

def typescript : String := sourceOf [
  "import \x7b Log \x7d from './log';",
  "export interface Gateway \x7b",
  "  open(id: number): void;",
  "\x7d",
  "export class View \x7b",
  "  draw() \x7b return 1; \x7d",
  "\x7d",
  "export class Panel extends View implements Gateway \x7b",
  "  constructor(id: number) \x7b",
  "    super();",
  "    this.main = new View();",
  "    this.side = new View();",
  "  \x7d",
  "  open(id: number) \x7b",
  "    Entity.load(id);",
  "    Shape.scale(id);",
  "  \x7d",
  "\x7d",
  "app.get('/panels', list);",
  "router.post('/panels', add);",
  "router.put('/panels/one', put);"]

def cpp : String := sourceOf [
  "#include \"engine.h\"",
  "// points on the plane",
  "struct Point \x7b",
  "  int x;",
  "  int y;",
  "\x7d;",
  "class Shape \x7b",
  " public:",
  "  virtual int area() \x7b return 1; \x7d",
  "\x7d;",
  "class Canvas : public Shape \x7b",
  " public:",
  "  Shape* front;",
  "  Point origin;",
  "  void paint() \x7b",
  "    Shape* s = new Shape();",
  "    Point::make();",
  "    Panel::show();",
  "  \x7d",
  "\x7d;"]

def javaStatement (i : Nat) : String :=
  let n := toString i
  "            this.f" ++ n ++ " = new Dep" ++ n ++ "(); Dep" ++ n ++ " v" ++ n ++ " = Helper.load();"

def javaClass (n : Nat) : String := Text.join "\n" [
  "public class Big \x7b",
  "    private String accountStatus;",
  "    public Big() \x7b",
  Text.join "\n" ((List.range n).map javaStatement),
  "    \x7d",
  "\x7d"]

def javaRoutes : String := Text.join "\n" [
  "@GetMapping(\"/a\")",
  "@PostMapping(\"/b\")",
  "@PutMapping(\"/c\")",
  "@DeleteMapping(\"/d\")",
  "@PatchMapping(\"/e\")",
  "@RequestMapping(\"/f\")"]

end SampleProgram

namespace Workload

structure SampleFile where
  path : String
  source : String

def counts (ns : List Nat) : Value := .list (ns.map .nat)

def sampleFile (name extension source : String) (i : Nat) : SampleFile := ⟨name ++ toString i ++ extension, source⟩

def copies (name extension source : String) (n : Nat) : List SampleFile :=
  (List.range n).map (sampleFile name extension source)

def readOnto (w : Workbench) : List SampleFile → List Value × Workbench
  | [] => ([], w)
  | f :: fs =>
    let (cs, w) := w.read f.path (some f.source) "pkg"
    let (rest, w) := readOnto w fs
    (cs.map ClassEntry.toValue ++ rest, w)

def readFiles (l : Language) (files : List SampleFile) : Loose Value := do
  let (classes, w) := readOnto {} files
  let relations ← w.relationsIn l (.list classes)
  return counts [classes.length, relations.length]

def readSome (l : Language) (files : List SampleFile) : Loose Value :=
  if files.isEmpty then throw (.outOfRange "list") else readFiles l files

def mixedFiles (n : Nat) : List SampleFile :=
  sampleFile "bank" ".py" SampleProgram.python 0 :: (copies "orders" ".cs" SampleProgram.csharp n ++
    copies "panels" ".ts" SampleProgram.typescript n ++ copies "canvas" ".cpp" SampleProgram.cpp n)

def readAll (n : Nat) : Loose Value := do
  let files := mixedFiles n
  let (classes, w) := readOnto {} files
  let relations ← w.relations (.list classes)
  let endpoints := files.flatMap fun f => Workbench.endpoints f.path (some f.source)
  let languages ← w.statistics.length
  return .list ([classes.length, relations.length, endpoints.length, languages].map .nat ++
    [.text (TypeName.bare "java.util.Map<String, Integer>[]")])

def statementSize : Nat := 40

def readJava (size : Nat) : Loose Value := do
  let source := Text.join "\n" [SampleProgram.javaClass (size / statementSize), SampleProgram.javaRoutes]
  let (classes, _) := readOnto {} [⟨"Big.java", source⟩]
  let (fields, held, f) := Java.codeFindings source "Big" {}
  return counts [classes.length, ((Java.classText? source "Big").getD []).length, fields.length, held.length,
    (Endpoint.ofSource .java source).length, (f.relationsKnown fun _ => true).length, f.usages.length]


def arrowReply (n : Nat) : String :=
  Text.join "\n" ("class Order" :: "class Item" :: List.replicate n "Order --> Item")

def tidyReplies (n : Nat) : Value :=
  let reply := arrowReply n
  let replies := [reply, "\x60\x60\x60plantuml\n" ++ reply ++ "\n\x60\x60\x60", ""]
  let tidied := DiagramKind.all.flatMap fun k =>
    StandIn.diagram (some k) :: replies.map (Reply.normal (some k))
  counts [tidied.length, (tidied.map String.length).foldl (· + ·) 0]

def promptContext (n : Nat) : Value :=
  .ofFields ((List.range n).map fun i => ("key" ++ toString i, .text ("value" ++ toString i)))

def promptGoal : Value := .text "Draw the system"

def goodRequests (n : Nat) : List Prompt.Request :=
  let part := Value.ofFields [("part", .text "x")]
  DiagramKind.all.map (fun k => { goal := promptGoal, kind := .text k.name, context := promptContext n }) ++
    [{ goal := promptGoal, context := part }, { goal := promptGoal, schema := part },
      { goal := promptGoal, style := part }]

def badRequests : List Prompt.Request :=
  [{ goal := .text "" }, { goal := promptGoal, kind := .text "unknown" },
    { goal := promptGoal, format := .text "unknown" }]

def isRefused (r : Prompt.Request) : Bool :=
  match Prompt.text r with
  | .ok _ => false
  | .error _ => true

def prompts (n : Nat) : Loose Value := do
  let texts ← (goodRequests n).mapM Prompt.text
  return counts [texts.length + badRequests.countP isRefused]

end Workload

end CodeAtlas
