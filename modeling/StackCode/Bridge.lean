import StackCode.ClassDef
import StackCode.Config
import StackCode.Error
import StackCode.Tree.Declaration

/-!
# Bridges

A method that overrides one with another erased signature needs a bridge: a
method with the overridden erased signature that forwards to it, with the
arguments cast where their erased types differ.
-/

namespace StackCode

/-- What tells the methods of a class apart after erasure. -/
structure ErasedSignature where
  /-- The name. -/
  name : String
  /-- The erased parameter types. -/
  params : List Erased
  /-- The erased result type. -/
  ret : Erased
  /-- The bits for accessibility and a variable number of arguments. -/
  flags : AccessFlags
  deriving DecidableEq, Repr, Inhabited

/-- The access bits that a bridge shares with the method it forwards to. -/
def AccessFlags.bridged (flags : AccessFlags) : AccessFlags :=
  flags &&& (AccessFlags.accessibility ||| AccessFlags.varargs)

/-- The erased signature of a declared method. -/
def MethodDecl.erasedSignature (method : MethodDecl) : ErasedSignature :=
  { name := method.name
    params := method.erasedParams
    ret := method.ret.erasure
    flags := method.flags.bridged }

/-- The erased signature of a bridge from an overridden method to a declared one. -/
def MethodDecl.bridgeSignature
    (method : MethodDecl)
    (overridden : MethodSignature) :
    ErasedSignature :=
  { name := method.name
    params := overridden.params.map Ty.erasure
    ret := overridden.ret.erasure
    flags := method.flags.bridged }

/-- The slots of parameters of the given types from `start` on, and the first free slot after
them. -/
def parameterSlots (start : Nat) : List Erased → List Nat × Nat
  | [] => ([], start)
  | type :: types =>
    let (slots, stop) := parameterSlots (start + max type.kind.width 1) types
    (start :: slots, stop)

@[simp] theorem length_parameterSlots (start : Nat) (types : List Erased) :
    (parameterSlots start types).1.length = types.length := by
  induction types generalizing start with
  | nil => rfl
  | cons type types ih => simp [parameterSlots, ih]

/-- Every parameter stands behind the ones before it. -/
theorem snd_parameterSlots (start : Nat) (types : List Erased) :
    (parameterSlots start types).2 =
      types.foldl (fun stop type => stop + max type.kind.width 1) start := by
  induction types generalizing start with
  | nil => rfl
  | cons type types ih => exact ih _

/-- Pass one argument on. -/
def forwardArgument
    (owner methodName : String)
    (source target : Erased)
    (slot : Nat) :
    Except Error (List Instruction) :=
  let load := Instruction.load source.kind slot
  if source = target then .ok [load]
  else if target.isReference then .ok [load, .checkCast target.internalName]
  else .error (.internal (.primitiveBridge owner methodName source target))

/-- The bridge with the given signature to a declared method of a class. -/
def buildBridge (owner : String) (method : MethodDecl) (bridge : ErasedSignature) :
    Except Error MethodDef := do
  let params := method.erasedParams
  let (slots, stop) := parameterSlots 1 bridge.params
  let arguments ← ((bridge.params.zip params).zip slots).mapM fun entry =>
    forwardArgument owner method.name entry.1.1 entry.1.2 entry.2
  let target : MethodRef :=
    { owner
      name := method.name
      params := params.map Ty.ofErased
      ret := .ofErased method.ret.erasure
      invoke := .virtual }
  return {
    name := bridge.name
    flags := bridge.flags ||| AccessFlags.bridge ||| AccessFlags.synthetic
    params := bridge.params
    ret := bridge.ret
    body := some <| .straight stop <|
      [.load .reference 0] ++ arguments.flatten ++
        [.invoke target, .plain (.ofReturn bridge.ret.kind)] }

/-- What is known while the bridges of a class are collected. -/
structure Bridging where
  /-- The signatures that are taken. -/
  taken : List ErasedSignature
  /-- The bridges so far. -/
  bridges : List MethodDef := []
  /-- The log. -/
  log : List LogEntry := []
  deriving Inhabited

namespace Bridging

/-- Leave a message in the log. -/
def write (level : LogLevel) (text : String) : EStateM Error Bridging Unit :=
  modify fun state => { state with log := state.log ++ [{ level, text }] }

/-- Add a bridge unless its signature is taken. -/
def add (owner : String) (method : MethodDecl) (bridge : ErasedSignature) :
    EStateM Error Bridging Unit := do
  let full := owner ++ "." ++ method.name ++ methodDescriptor bridge.params bridge.ret
  if bridge ∈ (← get).taken then write .trace (full ++ ": bridge already present")
  else
    match buildBridge owner method bridge with
    | .error error => throw error
    | .ok built =>
      write .debug
        ("bridge " ++ full ++ " -> " ++ methodDescriptor method.erasedParams method.ret.erasure)
      modify fun state =>
        { state with taken := state.taken ++ [bridge], bridges := state.bridges ++ [built] }

/-- Bridge an overridden method to a declared one, if their erased signatures differ. -/
def override (owner : String) (method : MethodDecl) (overridden : MethodSignature) :
    EStateM Error Bridging Unit := do
  let bridge := method.bridgeSignature overridden
  if bridge.params.length ≠ method.params.length then
    throw (.internal (.arity owner method.name overridden.owner overridden.name))
  if bridge.params = method.erasedParams ∧ bridge.ret = method.ret.erasure then return
  add owner method bridge

/-- Add the bridges to a declared method; static and private methods override nothing. -/
def addFor (owner : String) (method : MethodDecl) : EStateM Error Bridging Unit := do
  if method.isStatic || method.isPrivate then return
  method.overrides.forM (override owner method)

end Bridging

/-- Collect the bridges that a class needs, in the order of its methods. -/
def ClassDecl.collectBridges (cls : ClassDecl) : EStateM.Result Error Bridging Unit :=
  (cls.methods.forM (Bridging.addFor cls.name)).run
    { taken := cls.methods.map MethodDecl.erasedSignature }

/-- The bridges that a class needs. -/
def ClassDecl.bridges (cls : ClassDecl) : Except Error (List MethodDef) :=
  match cls.collectBridges with
  | .ok _ state => .ok state.bridges
  | .error error _ => .error error

end StackCode
