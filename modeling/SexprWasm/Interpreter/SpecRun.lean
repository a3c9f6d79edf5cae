import SexprWasm.Interpreter.ReadBinary

/-!
# Running the commands of a spec script

The part of `wasm-interp.c` that names modules: `on_module_command`,
`on_register_command` and `run_action`. Modules are found three ways: by a
lookup among the registered bindings for an import, by one among the
bindings of loaded modules for an action, and by a scan of the modules
for a register command.

What running code does is a parameter (`Vm`): it writes memories and
globals and may trap, and it neither loads nor names modules. A file
that cannot be read is `none`; the directory of the script is not part
of the model. A reset to a mark drops the bindings of the modules above
the mark by `wasm_remove_binding`; there are no such bindings when a
command fails (`nothingBoundAbove`), so `resetToMark` leaves them out.
-/

namespace SexprWasm

namespace Interpreter

open Callback

abbrev Name : Type := List UInt8

/-- `Action`; the arguments and the type only matter to the code that is run. -/
structure Action where
  moduleName : Name
  fieldName : Name
  args : List TypedValue
  isGet : Bool
  deriving DecidableEq, Repr

/-- What running code leaves: did it end without a trap, and the memories and globals. -/
structure Ran where
  ok : Bool
  memories : List Memory
  globals : List Global

/-- `run_start_function`, and `run_export_by_name` or `get_global_export_by_name`. -/
structure Vm where
  runStartFunction : Environment → Module → Ran
  runAction : Environment → Module → Action → Ran

inductive Command
  | module (data : Option (List UInt8)) (name : Name)
  | action (action : Action)
  | register (name : Name) (as : Name)
  deriving DecidableEq, Repr

/-- The name of the host module, `spectest`. -/
def hostName : Name := [0x73, 0x70, 0x65, 0x63, 0x74, 0x65, 0x73, 0x74]

/-- `init_environment`. -/
def initEnvironment (importDelegate : HostImportDelegate) : Environment :=
  Environment.appendHostModule {} hostName importDelegate

/-- `read_module`. -/
def readModule (options : ReadBinaryOptions) (data : Option (List UInt8)) : Callback Environment Unit :=
  match data with
  | none => error
  | some data => wasmReadBinaryInterpreter options data

def Environment.setRan (env : Environment) (ran : Ran) : Environment :=
  { env with memories := ran.memories, globals := ran.globals }

/-- The end of `on_module_command`: the last module gets its name. -/
def Environment.nameLastModule (env : Environment) (name : Name) : Environment :=
  { env with
    modules := env.modules.modify (env.modules.length - 1)
      (Module.modifyHeader fun m => { m with name })
    moduleBindings := env.moduleBindings.insert name ((env.modules.length : Int) - 1) }

def onModuleCommand (vm : Vm) (options : ReadBinaryOptions) (data : Option (List UInt8))
    (name : Name) : Callback Environment Unit := fun env =>
  match readModule options data env with
  | .abort => .abort
  | .error env' => .error (env'.resetToMark env.mark)
  | .ok _ env' =>
    match env'.modules.getLast? with
    | none => .abort
    | some m =>
      let ran := vm.runStartFunction env' m
      if ran.ok then
        .ok () (if name = [] then env'.setRan ran else (env'.setRan ran).nameLastModule name)
      else .error ((env'.setRan ran).resetToMark env.mark)

/-- `module_index` in `run_action`. -/
def actionModuleIndex (env : Environment) (moduleName : Name) : Int :=
  if moduleName = [] then (env.modules.length : Int) - 1 else env.moduleBindings.find moduleName

/-- `&ctx->env.modules.data[module_index]`; `none` outside of the modules. -/
def actionModule (env : Environment) (moduleName : Name) : Option Module :=
  if actionModuleIndex env moduleName < 0 then none
  else env.modules[(actionModuleIndex env moduleName).toNat]?

/-- `run_action`. The assertion does not see an index below 0. -/
def runAction (vm : Vm) (action : Action) : Callback Environment Unit := do
  let env ← get
  assert (actionModuleIndex env action.moduleName < env.modules.length)
  let m ← orAbort (actionModule env action.moduleName)
  let ran := vm.runAction env m action
  modify fun env => env.setRan ran
  ensure ran.ok

/-- `module_index` in `on_register_command`, if it is in range. -/
def registerModuleIndex (env : Environment) (name : Name) : Option Nat :=
  if name = [] then
    if env.modules.length = 0 then none else some (env.modules.length - 1)
  else env.modules.findIdx? fun m => m.header.name ≠ [] ∧ name = m.header.name

def onRegisterCommand (name as : Name) : Callback Environment Unit := do
  let env ← get
  match registerModuleIndex env name with
  | none => error
  | some moduleIndex =>
    modify fun env =>
      { env with
        registeredModuleBindings := env.registeredModuleBindings.insert as moduleIndex }

def Command.run (vm : Vm) (options : ReadBinaryOptions) : Command → Callback Environment Unit
  | .module data name => onModuleCommand vm options data name
  | .action a => runAction vm a
  | .register name as => onRegisterCommand name as

/-! ## What the names mean -/

/-- Who has which name, by the commands alone: the number of modules, and the names given to
loaded modules and by register commands, the latest first. -/
structure Names where
  count : Nat
  loaded : List (Name × Nat)
  registered : List (Name × Nat)
  deriving DecidableEq, Repr

def Names.initial : Names where
  count := 1
  loaded := []
  registered := [(hostName, 0)]

/-- The module a register command is about. -/
def Names.target (names : Names) (name : Name) : Option Nat :=
  if name = [] then some (names.count - 1) else names.loaded.lookup name

/-- The names after a command that succeeds, or fails. -/
def Names.after (names : Names) (ok : Bool) : Command → Names
  | .module _ name =>
    if ok then
      { names with
        count := names.count + 1
        loaded := if name = [] then names.loaded else (name, names.count) :: names.loaded }
    else names
  | .action _ => names
  | .register name as =>
    match names.target name with
    | none => names
    | some moduleIndex => { names with registered := (as, moduleIndex) :: names.registered }

/-- A command gives no name a second meaning, does not call a module what the host module is
called, and an action names a module that is there. -/
def Names.Allows (names : Names) (ok : Bool) : Command → Prop
  | .module _ name => ok = true → name ≠ [] → names.loaded.lookup name = none ∧ name ≠ hostName
  | .action action => action.moduleName = [] ∨ names.loaded.lookup action.moduleName ≠ none
  | .register name as => name ≠ hostName ∧ ∀ moduleIndex, names.target name = some moduleIndex →
      names.registered.lookup as = none ∨ names.registered.lookup as = some moduleIndex

/-- The environments that allowed commands lead to. Commands that fail are passed over, as
`parse_commands` does. -/
inductive Reached (vm : Vm) (options : ReadBinaryOptions) (importDelegate : HostImportDelegate) :
    Environment → Names → Prop
  | init : Reached vm options importDelegate (initEnvironment importDelegate) .initial
  | ok {env env' : Environment} {names : Names} {command : Command}
      (before : Reached vm options importDelegate env names)
      (run : command.run vm options env = .ok () env') (allows : names.Allows true command) :
      Reached vm options importDelegate env' (names.after true command)
  | error {env env' : Environment} {names : Names} {command : Command}
      (before : Reached vm options importDelegate env names)
      (run : command.run vm options env = .error env') (allows : names.Allows false command) :
      Reached vm options importDelegate env' (names.after false command)

/-- The three ways a module is found agree with what the names mean. -/
structure Resolves (env : Environment) (names : Names) : Prop where
  size : env.modules.length = names.count
  imports : ∀ n, findBindingIndexByName env.registeredModuleBindings n = names.registered.lookup n
  registers : ∀ m, m ≠ hostName → registerModuleIndex env m = names.target m
  actions : ∀ m moduleIndex, names.target m = some moduleIndex →
    actionModuleIndex env m = moduleIndex ∧ actionModule env m = env.modules[moduleIndex]?
  inRange : ∀ m moduleIndex, names.target m = some moduleIndex ∨
    names.registered.lookup m = some moduleIndex → moduleIndex < env.modules.length

/-- What was never registered or loaded is not found: an import and a register command fail.
An action is not checked for that, its module index is then -1 (`runAction` gives up). -/
structure Rejects (vm : Vm) (env : Environment) (names : Names) : Prop where
  imports : ∀ (c : Context) (index : Nat) (moduleName fieldName : Name) (import_ : Import),
    c.env.registeredModuleBindings = env.registeredModuleBindings →
    c.module.imports[index]? = some import_ → names.registered.lookup moduleName = none →
    onImport index moduleName fieldName c = .error c
  registers : ∀ name as, name ≠ hostName → names.target name = none →
    onRegisterCommand name as env = .error env
  actions : ∀ action : Action, names.target action.moduleName = none →
    runAction vm action env = .abort

end Interpreter

end SexprWasm
