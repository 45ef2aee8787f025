import StackCode.Bridge
import StackCode.Iterator

/-!
# Generating a class

The declared methods are lowered one after the other.  The class then gets its
bridges, and the methods of lambdas go to the classes that are their homes.
-/

namespace StackCode

open Emit in
/-- The body of a declared method that is no iterator. -/
def plainBody (method : MethodDecl) (body : Stmt) : Emit MethodBody := do
  reserveSelf
  method.params.forM fun param => discard (declareLocal param)
  prepareLambdas body method.params
  lowerBody body
  finish

/-- The body of a declared method. -/
def generateBody (method : MethodDecl) : Generation (Option MethodBody) := do
  match method.body, method.element with
  | none, _ => return none
  | some body, some element => return some (← IteratorClass.compile method element body)
  | some body, none =>
    let cls ← get
    Generation.log .trace ("lowering " ++ cls.name ++ "." ++ method.name)
    let context :=
      MethodContext.start cls.name method.name method.isStatic method.ret cls.config.varDebugInfo
    return some (← Emit.onMethod context (plainBody method body))

/-- Generate a declared method. -/
def generateMethod (method : MethodDecl) : Generation MethodDef := do
  let body ← generateBody method
  return {
    name := method.name
    flags := method.flags
    params := method.erasedParams
    ret := method.ret.erasure
    body }

/-- Add a method to the first class of a name. -/
def ClassDef.addTo (owner : String) (method : MethodDef) : List ClassDef → Option (List ClassDef)
  | [] => none
  | cls :: others =>
    if cls.name = owner then some ({ cls with methods := cls.methods ++ [method] } :: others)
    else (addTo owner method others).map (cls :: ·)

/-- Add a synthetic method to the class it belongs to. -/
def ClassBundle.add (bundle : ClassBundle) (owner : String) (method : MethodDef) :
    Except Error ClassBundle :=
  if owner = bundle.main.name then
    .ok { bundle with main := { bundle.main with methods := bundle.main.methods ++ [method] } }
  else
    match ClassDef.addTo owner method bundle.nested with
    | some nested => .ok { bundle with nested }
    | none => .error (.internal (.homelessMethod method.name owner))

/-- The bridges of a class, within its generation. -/
def generateBridges (decl : ClassDecl) : Generation (List MethodDef) := fun cls =>
  match decl.collectBridges with
  | .ok _ state => .ok state.bridges { cls with log := cls.log ++ state.log }
  | .error error state => .error error { cls with log := cls.log ++ state.log }

/-- The class with all its synthetic members, once every method is lowered. -/
def assemble
    (decl : ClassDecl)
    (methods bridges : List MethodDef) :
    Generation ClassBundle := do
  let cls ← get
  let main : ClassDef :=
    { name := decl.name
      superName := decl.superName
      interfaces := decl.interfaces
      flags := AccessFlags.ofModifiers decl.modifiers ||| AccessFlags.super
      fields := cls.fields.toList
      methods := methods ++ bridges }
  let start : ClassBundle := { main, nested := cls.nested.toList }
  match cls.methods.toList.foldlM (fun bundle entry => bundle.add entry.1 entry.2) start with
  | .ok bundle => return bundle
  | .error error => throw error

/-- Log the listings of all finished methods. -/
def logListings (bundle : ClassBundle) : Generation Unit :=
  (bundle.main :: bundle.nested).forM fun cls => cls.listings.forM (Generation.log .debug)

/-- Generate a declared class within a generation. -/
def generate (decl : ClassDecl) : Generation ClassBundle := do
  Generation.log .debug
    ("generating class " ++ decl.name ++ " (" ++ toString decl.methods.length ++ " methods)")
  let bridges ← generateBridges decl
  let methods ← decl.methods.mapM generateMethod
  let bundle ← assemble decl methods bridges
  if (← get).config.debugCode then logListings bundle
  return bundle

/-- What a generation comes to, with the log it leaves. -/
structure Outcome where
  /-- The classes, or the reason why there are none. -/
  result : Except Error ClassBundle
  /-- The log, the oldest message first. -/
  log : List LogEntry

/-- Generate a declared class and its synthetic companions. -/
def ClassDecl.generate (decl : ClassDecl) (config : Config) : Outcome :=
  match StackCode.generate decl { name := decl.name, config } with
  | .ok bundle cls => { result := .ok bundle, log := cls.log.toList }
  | .error error cls => { result := .error error, log := cls.log.toList }

end StackCode
