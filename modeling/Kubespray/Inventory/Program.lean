import Kubespray.Inventory.Groups
import Kubespray.Lib.Transition

/-!
# The inventory builder

`KubesprayInventory.__init__` with its commands. A run reads and writes the file `CONFIG_FILE`; it
is a program that may raise an exception and keeps the file as it is at that moment. A file that
was written is read back as the data that was dumped. The runs over one file are a transition
system (`builder`): it starts without a file, and a step is a run that returns, which is a run
that creates, extends or shrinks the inventory and writes it.
-/

namespace Kubespray

open Py

/-- What is at `CONFIG_FILE`. -/
inductive ConfigFile where
  /-- Opening the file fails. -/
  | absent
  /-- `yaml.load` raises. -/
  | malformed
  /-- `yaml.load` returns `doc`. -/
  | yaml (doc : Value)

/-- A run over the file `CONFIG_FILE`. -/
abbrev Script := ExceptT Exc (StateM ConfigFile)

/-- The outcome of a run that finds `file`, and the file after it. -/
def Script.exec {α : Type} (m : Script α) (file : ConfigFile) : Except Exc α × ConfigFile :=
  m.run.run file

/-- A sequence runs its second part on what the first part returns and leaves, or ends with the
exception of the first part. -/
theorem Script.exec_bind {α β : Type} (m : Script α) (f : α → Script β) (file : ConfigFile) :
    Script.exec (m >>= f) file =
      match m.exec file with
      | (.ok a, file) => (f a).exec file
      | (.error e, file) => (.error e, file) := by
  show (match m.run.run file with | (r, file) => (ExceptT.bindCont f r).run file) = _
  simp only [Script.exec]
  rcases StateT.run (ExceptT.run m) file with ⟨r, file'⟩
  cases r <;> rfl

/-- The load of the previous inventory in `__init__`. -/
def loadYaml : ConfigFile → Except Exc Value
  | .absent => .error (.systemExit 1)
  | .malformed => .error (.library "YAMLError")
  | .yaml doc => .ok doc

/-- Whether `__init__` loads the previous inventory: for `add`, and when the first argument is a
deletion. -/
def loadPreviousConfig (add : Bool) (changedHosts : List String) : Except Exc Bool :=
  match changedHosts with
  | [] => .ok add
  | first :: _ =>
    match first.toList with
    | [] => .error .indexError
    | c :: _ => .ok (add || c == '-')

/-- The configuration that the run starts from. -/
def startConfig (load : Bool) (file : ConfigFile) : Except Exc Value := do
  let yamlConfig ← if load then loadYaml file else pure (.dict [])
  ensureRequiredGroups roles yamlConfig

/-- The first part of `__init__`: the configuration that the run starts from and its host list.
Without arguments it shows the help text and exits. -/
def built (env : Env) (add : Bool) (changedHosts : List String) (file : ConfigFile) :
    Except Exc (Value × OrdDict String Value) := do
  let load ← loadPreviousConfig add changedHosts
  let yamlConfig ← startConfig load file
  if changedHosts.isEmpty then throw (.systemExit 0)
  else
    let changedHosts ← range2ips env changedHosts
    let hosts ← buildHostnames env changedHosts load yamlConfig
    pure (yamlConfig, hosts)

/-- The part of `__init__` that builds the inventory. -/
def updated (env : Env) (add : Bool) (changedHosts : List String) (file : ConfigFile) :
    Except Exc Value := do
  let (yamlConfig, hosts) ← built env add changedHosts file
  setGroups env hosts yamlConfig

/-! ## Commands -/

/-- `data.items()`. -/
def items : Value → Except Exc (List (String × Value))
  | .dict kvs => .ok kvs
  | _ => .error .attributeError

/-- One host of `load_file`. -/
def loadHost (group : String) (yamlConfig : Value) (p : String × Value) : Except Exc Value := do
  let ip ← p.2.getItem "ip"
  let optstring := .dict [("ansible_host", ip), ("ip", ip), ("access_ip", ip)]
  let yamlConfig ← addHostToGroup "all" p.1 optstring yamlConfig
  addHostToGroup group p.1 noOpts yamlConfig

/-- One group of `load_file`. -/
def loadGroup (yamlConfig : Value) (p : String × Value) : Except Exc Value := do
  let yamlConfig ← ensureRequiredGroups [p.1] yamlConfig
  (← items p.2).foldlM (loadHost p.1) yamlConfig

/-- What `load_file` makes of the document of one file. -/
def loadData (yamlConfig data : Value) : Except Exc Value := do
  let yamlConfig ← ensureRequiredGroups roles yamlConfig
  let yamlConfig ← setK8sCluster yamlConfig
  (← items data).foldlM loadGroup yamlConfig

/-- `json.load` of one file in `load_file`, after the files `before`. -/
def readData (env : Env) (before : List String) (filename : String) : Except Exc Value :=
  match env.readJson before filename with
  | .error (.valueError _) => .error (.exception "Cannot read %s as JSON, or CSV")
  | r => r

/-- One file of `load_file`, which is written at once. -/
def loadOne (env : Env) (before : List String) (yamlConfig : Value) (filename : String) :
    Script Value := do
  let data ← liftExcept (readData env before filename)
  let yamlConfig ← liftExcept (loadData yamlConfig data)
  set (ConfigFile.yaml yamlConfig)
  pure yamlConfig

/-- The loop of `load_file`, after the files `before`. -/
def loadFiles (env : Env) : List String → Value → List String → Script Value
  | _, yamlConfig, [] => pure yamlConfig
  | before, yamlConfig, filename :: files => do
    let yamlConfig ← loadOne env before yamlConfig filename
    loadFiles env (before ++ [filename]) yamlConfig files

/-- `load_file`. -/
def loadFile (env : Env) (files : List String) : Script Unit := do
  if files.isEmpty then throw (.exception "No input file specified.")
  let _ ← loadFiles env [] (.dict []) files

/-- `print_hostnames`; what it prints is not modelled. -/
def printHostnames (yamlConfig : Value) : Except Exc Unit := do
  let _ ← (← yamlConfig.getPath ["all", "hosts"]).copyKeys

/-- `print_ips`; what it prints is not modelled. -/
def printIps (yamlConfig : Value) : Except Exc Unit := do
  for p in ← items (← yamlConfig.getPath ["all", "hosts"]) do
    let _ ← getIpFromOpts p.2

/-- `parse_command`, on the empty configuration. -/
def parseCommand (env : Env) (command : String) (args : List String) : Script Unit :=
  if command = "help" ∨ command = "print_cfg" then pure ()
  else if command = "print_ips" then liftExcept (printIps (.dict []))
  else if command = "print_hostnames" then liftExcept (printHostnames (.dict []))
  else if command = "load" then loadFile env args
  else throw (.exception "Invalid command specified.")

/-! ## Runs -/

/-- The end of `__init__`: build the inventory and write it. -/
def writeUpdated (env : Env) (add : Bool) (changedHosts : List String) : Script Unit := do
  let yamlConfig ← liftExcept (updated env add changedHosts (← get))
  set (ConfigFile.yaml yamlConfig)

/-- `KubesprayInventory(argv, CONFIG_FILE)`. -/
def kubesprayInventory (env : Env) (argv : List String) : Script Unit :=
  match argv with
  | [] => writeUpdated env false []
  | command :: args =>
    if command ∉ availableCommands then writeUpdated env false (command :: args)
    else if command = "add" then writeUpdated env true args
    else if command = "print_hostnames" then do
      liftExcept (printHostnames (← liftExcept (loadYaml (← get))))
      throw (.systemExit 0)
    else do
      parseCommand env command args
      throw (.systemExit 0)

/-- The outcome of a run and the file after it. -/
def run (env : Env) (argv : List String) (file : ConfigFile) : Except Exc Unit × ConfigFile :=
  (kubesprayInventory env argv).exec file

/-- The runs over one file that starts absent: a step is a run that returns normally. -/
def builder (env : Env) : TransitionSystem ConfigFile (List String) where
  init file := file = .absent
  step file argv file' := run env argv file = (.ok (), file')

end Kubespray
