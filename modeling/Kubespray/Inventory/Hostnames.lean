import Kubespray.Lib.IpAddress

/-!
# The host list of the inventory builder

`contrib/inventory_builder/inventory.py` turns its arguments into a map from host names to host
options. This module has the environment it reads, `range2ips`, which expands address ranges, and
`build_hostnames`, which starts from the hosts of the loaded inventory and deletes or adds a host
for each argument in turn.

A loop iteration of `build_hostnames` is `argument`, split into its three branches: a deletion
(`deletion`), an address (`ipArgument`) and a name (`nameArgument`). The loop's local variables
are a state (`Locals`): `hostname`, `ip` and `access_ip` keep their values from one iteration to
the next, and reading one that was never set raises `UnboundLocalError`.
-/

namespace Kubespray

open Py

/-- `ROLES`. -/
def roles : List String :=
  ["all", "kube_control_plane", "kube_node", "etcd", "k8s_cluster", "calico_rr"]

/-- `PROTECTED_NAMES`. -/
def protectedNames : List String := roles

/-- `AVAILABLE_COMMANDS`. -/
def availableCommands : List String :=
  ["help", "print_cfg", "print_ips", "print_hostnames", "load", "add"]

/-- What the builder reads from outside: its environment variables with their defaults, the
character classes of the interpreter, the host name that `ssh` reports for an address and the JSON
document in a file. -/
structure Env where
  /-- `KUBE_CONTROL_HOSTS`. -/
  kubeControlHosts : Int := 2
  /-- `SCALE_THRESHOLD`. -/
  scaleThreshold : Int := 50
  /-- `MASSIVE_SCALE_THRESHOLD`. -/
  massiveScaleThreshold : Int := 200
  /-- `HOST_PREFIX`. -/
  hostPrefix : String := "node"
  /-- `USE_REAL_HOSTNAME`. -/
  useRealHostname : Bool := false
  chars : CharTable := .ascii
  /-- The stripped output of `ssh <access_ip> 'hostname -s'`. -/
  realHostname : String → Except Exc String := fun _ => .error (.library "CalledProcessError")
  /-- `json.load` of a named file, after the run has loaded the files before it: one that is
  `CONFIG_FILE` itself reads differently once the run has written it. -/
  readJson : List String → String → Except Exc Value := fun _ _ => .error .osError

/-! ## Host ids and host options -/

/-- `get_host_id`. -/
def getHostId (env : Env) (host : String) : Except Exc Nat :=
  let shortHostname := (split '.' host).headD ""
  match (env.chars.trailingDigits shortHostname).getLast? with
  | some ds => .ok (env.chars.toNat ds)
  | none => .error (.valueError "Host name must end in an integer")

/-- `get_ip_from_opts`. -/
def getIpFromOpts (optstring : Value) : Except Exc Value := do
  if ← optstring.contains "ip" then optstring.getItem "ip"
  else throw (.valueError "IP parameter not found in options")

/-- The options of an added host. -/
def hostOpts (accessIp ip : String) : Value :=
  .dict [("ansible_host", .str accessIp), ("ip", .str ip), ("access_ip", .str accessIp)]

/-- `exists_hostname`. -/
def existsHostname (existingHosts : OrdDict String Value) (hostname : String) : Bool :=
  decide (hostname ∈ existingHosts.keys)

/-- The search loop of `exists_ip` and `delete_host_by_ip`: the first host whose ip is `ip`. -/
def hostByIp : List (String × Value) → String → Except Exc (Option String)
  | [], _ => .ok none
  | (hostname, opts) :: rest, ip => do
    if (← getIpFromOpts opts).isStr ip then pure (some hostname) else hostByIp rest ip

/-- `exists_ip`. -/
def existsIp (existingHosts : OrdDict String Value) (ip : String) : Except Exc Bool := do
  pure (← hostByIp existingHosts.items ip).isSome

/-- `delete_host_by_ip`. -/
def deleteHostByIp (existingHosts : OrdDict String Value) (ip : String) :
    Except Exc (OrdDict String Value) := do
  match ← hostByIp existingHosts.items ip with
  | some hostname => pure (existingHosts.erase hostname)
  | none => throw (.valueError ("Unable to find host by IP: " ++ ip))

/-! ## The arguments -/

/-- The local variables of the loop of `build_hostnames`. -/
structure Locals where
  /-- `all_hosts`. -/
  allHosts : OrdDict String Value
  /-- `next_host_id`. -/
  nextHostId : Nat
  hostname : Option String := none
  ip : Option String := none
  /-- `access_ip`. -/
  accessIp : Option String := none

/-- The value of a local variable. -/
def readLocal (name : String) : Option String → Except Exc String
  | some s => .ok s
  | none => .error (.unboundLocalError name)

/-- The exception of an assignment `a, b = xs` of the wrong length. -/
def unpackError : Exc := .valueError "unpack"

/-- The branch for an argument `-x`: delete the host named `x`, else the host with ip `x`. -/
def deletion (s : Locals) (realhost : String) : Except Exc Locals := do
  if existsHostname s.allHosts realhost then
    pure { s with allHosts := s.allHosts.erase realhost }
  else if ← existsIp s.allHosts realhost then
    pure { s with allHosts := ← deleteHostByIp s.allHosts realhost }
  else pure s

/-- `next_host` and the new `next_host_id` for a host that is given without a name. -/
def nextHost (env : Env) (nextHostId : Nat) (accessIp : String) : Except Exc (String × Nat) := do
  if env.useRealHostname then pure (← env.realHostname accessIp, nextHostId)
  else pure (env.hostPrefix ++ toString nextHostId, nextHostId + 1)

/-- The assignment of `ip` and `access_ip` from an argument `ip` or `ip,access_ip`. -/
def ipParts (host : String) : Except Exc (String × String) :=
  if ',' ∈ host.toList then
    match split ',' host with
    | [ip, accessIp] => .ok (ip, accessIp)
    | _ => .error unpackError
  else .ok (host, host)

/-- The branch for an argument that starts with a digit. -/
def ipArgument (env : Env) (s : Locals) (host : String) : Except Exc Locals := do
  let (ip, accessIp) ← ipParts host
  let s := { s with ip := some ip, accessIp := some accessIp }
  if existsHostname s.allHosts host then pure s
  else if ← existsIp s.allHosts ip then pure s
  else
    let (name, nextHostId) ← nextHost env s.nextHostId accessIp
    pure { s with allHosts := s.allHosts.insert name (hostOpts accessIp ip), nextHostId }

/-- The assignment of the variables from an argument `name,ip` or `name,ip,access_ip`. Without a
comma nothing is assigned, and the variables of an earlier argument are used. -/
def nameParts (s : Locals) (host : String) : Except Exc Locals :=
  if ',' ∈ host.toList then
    match split ',' host with
    | [hostname, ip, accessIp] =>
      .ok { s with hostname := some hostname, ip := some ip, accessIp := some accessIp }
    | [hostname, ip] =>
      .ok { s with hostname := some hostname, ip := some ip, accessIp := some ip }
    | _ => .error unpackError
  else .ok s

/-- The branch for an argument that starts with a letter. -/
def nameArgument (s : Locals) (host : String) : Except Exc Locals := do
  let s ← nameParts s host
  if existsHostname s.allHosts host then pure s
  else
    let ip ← readLocal "ip" s.ip
    if ← existsIp s.allHosts ip then pure s
    else
      let accessIp ← readLocal "access_ip" s.accessIp
      let hostname ← readLocal "hostname" s.hostname
      pure { s with allHosts := s.allHosts.insert hostname (hostOpts accessIp ip) }

/-- One iteration of the loop of `build_hostnames`. -/
def argument (env : Env) (s : Locals) (host : String) : Except Exc Locals :=
  match host.toList with
  | [] => throw .indexError
  | c :: _ =>
    if c = '-' then deletion s (tail host)
    else if env.chars.isdigit c then ipArgument env s host
    else if env.chars.isalpha c then nameArgument s host
    else pure s

/-- One iteration of the loop that reads the loaded hosts: the host is copied, and a name that
starts with `HOST_PREFIX` is searched for its id. -/
def existingHost (env : Env) (hosts : Value) (r : OrdDict String Value × Nat) (host : String) :
    Except Exc (OrdDict String Value × Nat) := do
  let hostConfig ← hosts.getItem host
  let existing := r.1.insert host hostConfig
  if startsWith host env.hostPrefix then
    let hostId ← getHostId env host
    pure (existing, if hostId > r.2 then hostId else r.2)
  else pure (existing, r.2)

/-- The hosts of the loaded inventory and `highest_host_id`. -/
def existingHosts (env : Env) (yamlConfig : Value) : Except Exc (OrdDict String Value × Nat) := do
  let hosts ← yamlConfig.getPath ["all", "hosts"]
  (← hosts.iter).foldlM (existingHost env hosts) (OrdDict.empty, 0)

/-- The local variables before the loop over the arguments. Any exception while the existing hosts
are read ends the program. -/
def initialLocals (env : Env) (loadPreviousConfig : Bool) (yamlConfig : Value) :
    Except Exc Locals := do
  let (existing, highestHostId) ←
    if loadPreviousConfig then
      match existingHosts env yamlConfig with
      | .ok r => pure r
      | .error _ => throw (.systemExit 1)
    else pure (OrdDict.empty, 0)
  pure { allHosts := existing, nextHostId := highestHostId + 1 }

/-- The local variables after the loop of `build_hostnames` has gone through the arguments. -/
def changedLocals (env : Env) (changedHosts : List String) (loadPreviousConfig : Bool)
    (yamlConfig : Value) : Except Exc Locals := do
  changedHosts.foldlM (argument env) (← initialLocals env loadPreviousConfig yamlConfig)

/-- `build_hostnames`. -/
def buildHostnames (env : Env) (changedHosts : List String) (loadPreviousConfig : Bool)
    (yamlConfig : Value) : Except Exc (OrdDict String Value) := do
  pure (← changedLocals env changedHosts loadPreviousConfig yamlConfig).allHosts

/-! ## Address ranges -/

/-- The inner function `ips` of `range2ips`; `none` is its `ValueError`. -/
def ips (startAddress endAddress : String) : Option (List String) := do
  let first := (← IpAddress.ofString startAddress).toNat
  let last := (← IpAddress.ofString endAddress).toNat
  (List.range' first (last + 1 - first)).mapM fun n => (IpAddress.ofNat n).map IpAddress.exploded

/-- Whether `range2ips` takes an argument for a range. -/
def isRange (env : Env) (host : String) : Bool :=
  host.toList.contains '-' &&
    !(startsWith host "-" || host.toList.head?.any env.chars.isalpha)

/-- The texts that `range2ips` puts in the place of one argument. -/
def expandRange (env : Env) (host : String) : Except Exc (List String) :=
  if isRange env host then
    match split '-' (strip env.chars host) with
    | [first, last] =>
      match ips first last with
      | some addresses => .ok addresses
      | none => .error (.exception "Range of ip_addresses isn't valid")
    | _ => .error unpackError
  else .ok [host]

/-- `range2ips`. -/
def range2ips (env : Env) (hosts : List String) : Except Exc (List String) := do
  pure (← hosts.mapM (expandRange env)).flatten

end Kubespray
