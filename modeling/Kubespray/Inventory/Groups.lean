import Kubespray.Inventory.Hostnames

/-!
# The group passes of the inventory builder

The methods of `KubesprayInventory` that change `self.yaml_config`, each a function on the
configuration as YAML data: `ensure_required_groups`, `purge_invalid_hosts`, `add_host_to_group`
and the `set_*` passes that call it. `setGroups` is the order in which a run applies them.
-/

namespace Kubespray

open Py

/-- `ensure_required_groups` for one group. -/
def ensureRequiredGroup (yamlConfig : Value) (group : String) : Except Exc Value := do
  if group = "all" then
    if ← yamlConfig.contains "all" then pure yamlConfig
    else pure (.dict [("all", .dict [("hosts", .dict []), ("children", .dict [])])])
  else
    let children ← yamlConfig.getPath ["all", "children"]
    if ← children.contains group then pure yamlConfig
    else yamlConfig.update ["all", "children"] (·.setItem group (.dict [("hosts", .dict [])]))

/-- `ensure_required_groups`. -/
def ensureRequiredGroups (groups : List String) (yamlConfig : Value) : Except Exc Value :=
  groups.foldlM ensureRequiredGroup yamlConfig

/-- The body of the loops of `purge_invalid_hosts`: delete a host of the mapping at `path` that is
neither in the host list nor protected. -/
def purgeHost (path hostnames protectedNames : List String) (yamlConfig : Value) (host : String) :
    Except Exc Value :=
  if host ∉ hostnames ∧ host ∉ protectedNames then
    yamlConfig.update path (·.delItem host)
  else .ok yamlConfig

/-- The loops of `purge_invalid_hosts` over a copy of the hosts at `path`, if there are any. -/
def purgeHosts (path hostnames protectedNames : List String) (yamlConfig : Value) :
    Except Exc Value := do
  let hosts ← yamlConfig.getPath path
  if hosts.truthy then
    (← hosts.copyKeys).foldlM (purgeHost path hostnames protectedNames) yamlConfig
  else pure yamlConfig

/-- `purge_invalid_hosts`. -/
def purgeInvalidHosts (hostnames protectedNames : List String) (yamlConfig : Value) :
    Except Exc Value := do
  let children ← yamlConfig.getPath ["all", "children"]
  let yamlConfig ← (← children.iter).foldlM
    (fun yamlConfig role =>
      if role ≠ "k8s_cluster" then
        purgeHosts ["all", "children", role, "hosts"] hostnames protectedNames yamlConfig
      else .ok yamlConfig)
    yamlConfig
  purgeHosts ["all", "hosts"] hostnames protectedNames yamlConfig

/-- `add_host_to_group`; `opts` is used for the group `all` only. -/
def addHostToGroup (group host : String) (opts : Value) (yamlConfig : Value) :
    Except Exc Value := do
  if group = "all" then
    let hosts ← yamlConfig.getPath ["all", "hosts"]
    let yamlConfig ←
      if hosts.isNone then
        yamlConfig.update ["all"] (·.setItem "hosts" (.dict [(host, .none)]))
      else pure yamlConfig
    yamlConfig.update ["all", "hosts"] (·.setItem host opts)
  else if group ≠ "k8s_cluster:children" then
    let hosts ← yamlConfig.getPath ["all", "children", group, "hosts"]
    if hosts.isNone then
      yamlConfig.update ["all", "children", group] (·.setItem "hosts" (.dict [(host, .none)]))
    else yamlConfig.update ["all", "children", group, "hosts"] (·.setItem host .none)
  else pure yamlConfig

/-- The default `opts=""` of `add_host_to_group`. -/
def noOpts : Value := .str ""

/-- The loop `for host in hosts: self.add_host_to_group(group, host)`. -/
def addHosts (group : String) (hosts : List String) (yamlConfig : Value) : Except Exc Value :=
  hosts.foldlM (fun yamlConfig host => addHostToGroup group host noOpts yamlConfig) yamlConfig

/-- `set_kube_control_plane`. -/
def setKubeControlPlane (hosts : List String) : Value → Except Exc Value :=
  addHosts "kube_control_plane" hosts

/-- `set_etcd`. -/
def setEtcd (hosts : List String) : Value → Except Exc Value := addHosts "etcd" hosts

/-- `set_all`. -/
def setAll (hosts : OrdDict String Value) (yamlConfig : Value) : Except Exc Value :=
  hosts.items.foldlM (fun yamlConfig p => addHostToGroup "all" p.1 p.2 yamlConfig) yamlConfig

/-- The `k8s_cluster` group that `set_k8s_cluster` writes. -/
def k8sClusterGroup : Value :=
  .dict [("children", .dict [("kube_control_plane", .none), ("kube_node", .none)])]

/-- `set_k8s_cluster`. -/
def setK8sCluster (yamlConfig : Value) : Except Exc Value :=
  yamlConfig.update ["all", "children"] (·.setItem "k8s_cluster" k8sClusterGroup)

/-- One iteration of `set_calico_rr`. The conflict checks look for the host among the keys of the
group, not of its `hosts`. -/
def setCalicoRrHost (yamlConfig : Value) (host : String) : Except Exc Value := do
  if ← (← yamlConfig.getPath ["all", "children", "kube_control_plane"]).contains host then
    pure yamlConfig
  else if ← (← yamlConfig.getPath ["all", "children", "kube_node"]).contains host then
    pure yamlConfig
  else addHostToGroup "calico_rr" host noOpts yamlConfig

/-- `set_calico_rr`. -/
def setCalicoRr (hosts : List String) (yamlConfig : Value) : Except Exc Value :=
  hosts.foldlM setCalicoRrHost yamlConfig

/-- One iteration of `set_kube_node`. -/
def setKubeNodeHost (env : Env) (yamlConfig : Value) (host : String) : Except Exc Value := do
  let size ← (← yamlConfig.getPath ["all", "hosts"]).len
  let inEtcd ←
    if env.scaleThreshold ≤ size then
      (← yamlConfig.getPath ["all", "children", "etcd", "hosts"]).contains host
    else pure false
  if inEtcd then pure yamlConfig
  else
    let inControlPlane ←
      if env.massiveScaleThreshold ≤ size then
        (← yamlConfig.getPath ["all", "children", "kube_control_plane", "hosts"]).contains host
      else pure false
    if inControlPlane then pure yamlConfig
    else addHostToGroup "kube_node" host noOpts yamlConfig

/-- `set_kube_node`. -/
def setKubeNode (env : Env) (hosts : List String) (yamlConfig : Value) : Except Exc Value :=
  hosts.foldlM (setKubeNodeHost env) yamlConfig

/-- `etcd_hosts_count`. -/
def etcdHostsCount (hosts : OrdDict String Value) : Nat := if 3 ≤ hosts.size then 3 else 1

/-- The hosts that a run gives to `set_kube_control_plane`. -/
def controlPlaneHosts (env : Env) (hosts : OrdDict String Value) : List String :=
  if env.scaleThreshold ≤ hosts.size then
    slice hosts.keys (etcdHostsCount hosts) (etcdHostsCount hosts + env.kubeControlHosts)
  else slice hosts.keys 0 env.kubeControlHosts

/-- The passes of a run, for the host list `hosts`. -/
def setGroups (env : Env) (hosts : OrdDict String Value) (yamlConfig : Value) :
    Except Exc Value := do
  let yamlConfig ← purgeInvalidHosts hosts.keys protectedNames yamlConfig
  let yamlConfig ← setAll hosts yamlConfig
  let yamlConfig ← setK8sCluster yamlConfig
  let yamlConfig ← setEtcd (hosts.keys.take (etcdHostsCount hosts)) yamlConfig
  let yamlConfig ← setKubeControlPlane (controlPlaneHosts env hosts) yamlConfig
  let yamlConfig ← setKubeNode env hosts.keys yamlConfig
  if env.scaleThreshold ≤ hosts.size then
    setCalicoRr (hosts.keys.take (etcdHostsCount hosts)) yamlConfig
  else pure yamlConfig

end Kubespray
