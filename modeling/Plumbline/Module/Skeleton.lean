/-
Skeletons.

A rendering of a module without places and comments.  Two sources with the same skeleton differ
only in comments and blanks, as far as the rules can see.
-/
import Plumbline.Module.Basic
import Plumbline.Text.Quoted

namespace Plumbline

namespace Skeleton

def literal : Literal → String
  | .str => "Str"
  | .fstr => "FStr"
  | .bytes => "Bytes"
  | .int => "Int"
  | .float => "Float"
  | .bool b => if b then "Bool(true)" else "Bool(false)"
  | .none => "None"
  | .ellipsis => "Ellipsis"

def collection : CollectionKind → String
  | .list => "List"
  | .dict => "Dict"
  | .set => "Set"
  | .tuple => "Tuple"

def compound : CompoundKind → String
  | .conditional => "If"
  | .forLoop => "For"
  | .whileLoop => "While"
  | .attempt => "Try"
  | .resource => "With"
  | .matching => "Match"

def param : ParamKind → String
  | .positional => "Positional"
  | .varArgs => "VarArgs"
  | .kwArgs => "KwArgs"

def bool (b : Bool) : String := if b then "true" else "false"

mutual

def expr : Expr → String
  | .literal l _ => literal l
  | .name id _ => id
  | .member value attr _ => expr value ++ "." ++ attr
  | .call func args keywords _ => expr func ++ "(" ++ items args ++ keywordItems keywords ++ ")"
  | .collection kind parts _ => collection kind ++ "[" ++ items parts ++ "]"
  | .other _ => "?"

def items : List Expr → String
  | [] => ""
  | e :: rest => expr e ++ "," ++ items rest

def keywordItems : List (String × Expr) → String
  | [] => ""
  | (name, value) :: rest => name ++ "=" ++ expr value ++ "," ++ keywordItems rest

end

def decorators (ds : List Decorator) : String :=
  String.join (ds.map fun d => " @" ++ expr d.expr)

def annotated (mark : String) (a : Option TypeHint) : String :=
  match a with
  | some a => mark ++ a.text
  | none => ""

def parameter (p : Param) : String :=
  " [" ++ param p.kind ++ " " ++ p.name ++ annotated ":" p.hint ++
    (match p.default with
      | some d => "=" ++ expr d
      | none => "") ++ "]"

def importedName (n : ImportedName) : String :=
  "ImportedName \x7b name: " ++ Quoted.encode n.name ++ ", alias: " ++
    Quoted.option (n.asName.map Quoted.encode) ++ " \x7d"

mutual

def block : List Stmt → String
  | [] => ""
  | s :: rest => stmt s ++ block rest

def stmt : Stmt → String
  | .comment _ => ""
  | .functionDef h body =>
    "(def " ++ h.qualname ++ " async=" ++ bool h.isAsync ++ decorators h.decorators ++
      String.join (h.params.map parameter) ++ annotated " -> " h.returns ++
      "\x7b" ++ block body ++ "\x7d)"
  | .classDef h body =>
    "(class " ++ h.qualname ++ decorators h.decorators ++
      String.join (h.bases.map fun b => " " ++ expr b) ++ "\x7b" ++ block body ++ "\x7d)"
  | .importing i =>
    "(import " ++ Quoted.option (i.fromModule.map Quoted.encode) ++ " " ++ toString i.level ++
      " " ++ Quoted.list (i.names.map importedName) ++ " " ++ bool i.wildcard ++ ")"
  | .returning r =>
    "(return" ++ (match r.value with
      | some v => " " ++ expr v
      | none => "") ++ ")"
  | .assign a =>
    "(assign " ++ Quoted.list (a.targets.map Quoted.encode) ++ annotated ":" a.hint ++
      (match a.value with
        | some v => " " ++ expr v
        | none => "") ++ ")"
  | .expr e => "(expr " ++ expr e ++ ")"
  | .compound h blocks =>
    "(" ++ compound h.kind ++ String.join (h.heads.map fun e => " " ++ expr e) ++
      blockList blocks ++ ")"
  | .pass _ => "(pass)"
  | .raise _ => "(raise)"
  | .other s => "(other " ++ toString (s.stop - s.start) ++ ")"

def blockList : List (List Stmt) → String
  | [] => ""
  | b :: rest => "\x7b" ++ block b ++ "\x7d" ++ blockList rest

end

end Skeleton

/-- The rendering of a module without places and comments. -/
def Module.skeleton (m : Module) : String := Skeleton.block m.body

end Plumbline
