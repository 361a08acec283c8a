import Kubespray.Lib.Combine

/-!
# The Calico resources of a cluster

`roles/network_plugin/calico/tasks/install.yml` combines its settings with the resources that the
datastore has (`configure`), and `tasks/check.yml` stops a run whose variables do not match the IP
pool that is there (`checkCalico`). A run applies some of the resources in their order
(`calicoRun`); what it makes of one of them does not depend on the others
(`foldl_configure_of_mem`). The fields that the datastore fills in by itself are left out.
-/

open Py (Value)
open Py.Value (combine getPath Keyed Mentions getPath_cons_eq_ok getPath_combine_of_gives
  getPath_combine_of_not_mentions)

namespace Kubespray

/-! ## Settings -/

/-- The variables of the role. `calico_pool_blocksize` and `calico_pool_cidr`, also those for IPv6,
are taken with their defaults. -/
structure CalicoVars where
  ignore_assert_errors : Bool
  calico_network_backend : String
  calico_ipip_mode : String
  calico_vxlan_mode : String
  calico_felix_reporting_interval : String
  calico_bpf_log_level : String
  calico_bpf_enabled : Bool
  calico_bpf_service_mode : String
  calico_wireguard_enabled : Bool
  calico_felix_log_severity_screen : String
  calico_pool_name : String
  calico_pool_blocksize : Int
  calico_pool_cidr : String
  nat_outgoing : Bool
  peer_with_router : Bool
  enable_dual_stack_networks : Bool
  calico_pool_blocksize_ipv6 : Int
  calico_pool_cidr_ipv6 : String
  calico_ipip_mode_ipv6 : String
  calico_vxlan_mode_ipv6 : String
  nat_outgoing_ipv6 : Bool
  peer_with_router_ipv6 : Bool
  peer_with_calico_rr : Bool
  calico_bgp_listen_port : Int
  calico_no_global_as_num : Bool
  global_as_num : Int
  calico_advertise_cluster_ips : Bool
  kube_service_addresses : String
  kube_service_addresses_ipv6 : String
  calico_advertise_service_loadbalancer_ips : List String
  calico_advertise_service_external_ips : List String

/-- A resource of the datastore, by its kind and name. -/
abbrev ResourceKey : Type := String × String

/-- A resource that the role sets. -/
structure CalicoResource where
  kind : String
  name : String
  spec : List (String × Value)
  /-- No setting is made twice, and none is an object. -/
  keys_nodup : (Assoc.keys spec).Nodup
  ne_dict : ∀ p ∈ spec, ∀ kvs, p.2 ≠ .dict kvs

/-- The document that is combined and applied. -/
def CalicoResource.settings (r : CalicoResource) : Value :=
  .dict [("kind", .str r.kind), ("apiVersion", .str "projectcalico.org/v3"),
    ("metadata", .dict [("name", .str r.name)]), ("spec", .dict r.spec)]

def CalicoResource.key (r : CalicoResource) : ResourceKey := (r.kind, r.name)

/-- `[{'cidr': item}, ...]`. -/
def cidrs (items : List String) : Value := .list (items.map fun item => .dict [("cidr", .str item)])

/-- `Set kubespray FelixConfiguration`. -/
def felixConfig (v : CalicoVars) : CalicoResource where
  kind := "FelixConfiguration"
  name := "default"
  spec :=
    [("ipipEnabled", .bool (v.calico_ipip_mode != "Never")),
      ("reportingInterval", .str v.calico_felix_reporting_interval),
      ("bpfLogLevel", .str v.calico_bpf_log_level),
      ("bpfEnabled", .bool v.calico_bpf_enabled),
      ("bpfExternalServiceMode", .str v.calico_bpf_service_mode),
      ("wireguardEnabled", .bool v.calico_wireguard_enabled),
      ("logSeverityScreen", .str v.calico_felix_log_severity_screen),
      ("vxlanEnabled", .bool (v.calico_vxlan_mode != "Never"))]
  keys_nodup := by simp [Assoc.keys]
  ne_dict := by simp

/-- `Set kubespray calico network pool`. -/
def calicoPool (v : CalicoVars) : CalicoResource where
  kind := "IPPool"
  name := v.calico_pool_name
  spec :=
    [("blockSize", .int v.calico_pool_blocksize),
      ("cidr", .str v.calico_pool_cidr),
      ("ipipMode", .str v.calico_ipip_mode),
      ("vxlanMode", .str v.calico_vxlan_mode),
      ("natOutgoing", .bool (v.nat_outgoing && !v.peer_with_router))]
  keys_nodup := by simp [Assoc.keys]
  ne_dict := by simp

/-- The same for the IPv6 pool. -/
def calicoPoolIpv6 (v : CalicoVars) : CalicoResource where
  kind := "IPPool"
  name := v.calico_pool_name ++ "-ipv6"
  spec :=
    [("blockSize", .int v.calico_pool_blocksize_ipv6),
      ("cidr", .str v.calico_pool_cidr_ipv6),
      ("ipipMode", .str v.calico_ipip_mode_ipv6),
      ("vxlanMode", .str v.calico_vxlan_mode_ipv6),
      ("natOutgoing", .bool (v.nat_outgoing_ipv6 && !v.peer_with_router_ipv6))]
  keys_nodup := by simp [Assoc.keys]
  ne_dict := by simp

/-- The service addresses that are advertised. -/
def serviceClusterIPs (v : CalicoVars) : Value :=
  cidrs (v.kube_service_addresses ::
    if v.enable_dual_stack_networks then [v.kube_service_addresses_ipv6] else [])

/-- The settings of the BGP configuration. The first control plane is in `k8s_cluster`. -/
def bgpSpec (v : CalicoVars) : List (String × Value) :=
  [("listenPort", .int v.calico_bgp_listen_port), ("logSeverityScreen", .str "Info")] ++
    (if v.calico_no_global_as_num then [] else [("asNumber", .int v.global_as_num)]) ++
    [("nodeToNodeMeshEnabled", .bool !(v.peer_with_router || v.peer_with_calico_rr))] ++
    (if v.calico_advertise_cluster_ips then [("serviceClusterIPs", serviceClusterIPs v)] else []) ++
    (if v.calico_advertise_service_loadbalancer_ips.length > 0 then
      [("serviceLoadBalancerIPs", cidrs v.calico_advertise_service_loadbalancer_ips)] else []) ++
    [("serviceExternalIPs", cidrs v.calico_advertise_service_external_ips)]

/-- `Set kubespray BGP Configuration`. -/
def bgpConfig (v : CalicoVars) : CalicoResource where
  kind := "BGPConfiguration"
  name := "default"
  spec := bgpSpec v
  keys_nodup := by
    rw [bgpSpec]
    split <;> split <;> split <;> simp [Assoc.keys]
  ne_dict := by
    rw [bgpSpec]
    split <;> split <;> split <;> simp [serviceClusterIPs, cidrs]

/-- The resources in the order in which the role applies them. -/
def calicoResources (v : CalicoVars) : List CalicoResource :=
  [felixConfig v, calicoPool v] ++
    (if v.enable_dual_stack_networks then [calicoPoolIpv6 v] else []) ++ [bgpConfig v]

/-! ## Checks -/

section
variable (F : Py.Format)

/-- The filter `int` of Jinja, for what it can read as an integer; anything else counts as 0. -/
def intFilter (v : Value) : Int :=
  match F.int v with
  | .ok n => n
  | .error _ => 0

/-- `x.y.z is not defined or x.y.z == expected`. -/
def undefinedOr (path : List String) (expected : String) (v : Value) : Bool :=
  match getPath path v with
  | .ok found => found.isStr expected
  | .error _ => true

/-- `Check if inventory match current cluster configuration`. -/
def poolMatches (v : CalicoVars) (pool : Value) : Bool :=
  (match getPath ["spec", "blockSize"] pool with
    | .ok size => intFilter F size == v.calico_pool_blocksize
    | .error _ => false) &&
  (match getPath ["spec", "cidr"] pool with
    | .ok cidr => cidr.isStr v.calico_pool_cidr
    | .error _ => false) &&
  undefinedOr ["spec", "ipipMode"] v.calico_ipip_mode pool &&
  undefinedOr ["spec", "vxlanMode"] v.calico_vxlan_mode pool

/-- `calico_pool_name is match('^[a-zA-Z0-9-_\.]{2,63}$')`; `$` also matches in front of a last
line break. -/
def poolNameOk (name : String) : Bool :=
  let cs := if name.toList.getLast? = some '\n' then name.toList.dropLast else name.toList
  decide (2 ≤ cs.length ∧ cs.length ≤ 63) &&
    cs.all fun c => c.isAlphanum || c == '-' || c == '_' || c == '.'

/-- A task `assert`: what it demands where its condition `when` holds, and its message. -/
structure Assertion where
  that : Bool
  msg : String

/-- The checks of `check.yml`; `pool` is what the datastore answers. -/
def calicoChecks (v : CalicoVars) (pool : Option Value) : List Assertion :=
  [{ that := poolNameOk v.calico_pool_name
     msg := "calico_pool_name contains invalid characters" },
    { that := v.calico_network_backend ∈ ["bird", "vxlan", "none"]
      msg := "calico network backend is not 'bird', 'vxlan' or 'none'" },
    { that := v.calico_ipip_mode ∈ ["Always", "CrossSubnet", "Never"] ∧
        v.calico_vxlan_mode ∈ ["Always", "CrossSubnet", "Never"]
      msg := "calico inter host encapsulation mode is not 'Always', 'CrossSubnet' or 'Never'" },
    { that := v.calico_ipip_mode ∈ ["Always", "CrossSubnet"] → v.calico_vxlan_mode ∈ ["Never"]
      msg := "IP in IP and VXLAN mode is mutualy exclusive modes" },
    { that := v.calico_vxlan_mode ∈ ["Always", "CrossSubnet"] → v.calico_ipip_mode ∈ ["Never"]
      msg := "IP in IP and VXLAN mode is mutualy exclusive modes" },
    { that := pool.all (poolMatches F v)
      msg := "Your inventory doesn't match the current cluster configuration" },
    { that := v.enable_dual_stack_networks = true → v.calico_ipip_mode_ipv6 ∈ ["Never"]
      msg := "Calico doesn't support ipip tunneling for the IPv6" }]

/-- The first check that fails stops the run with its message. -/
def checkCalico (v : CalicoVars) (pool : Option Value) : Except String Unit :=
  ((calicoChecks F v pool).find? fun a => !a.that).elim (.ok ()) fun a => .error a.msg

end

/-! ## Runs -/

/-- The resources that the datastore has. -/
abbrev Datastore : Type := ResourceKey → Option Value

/-- What a run of the playbook meets: whether `get` of a resource that is there succeeds, and how
many resources are applied before the run stops. -/
structure CalicoOutcome where
  reads : ResourceKey → Bool
  applied : Nat

/-- The document that is applied: if `get` fails these are the settings alone. -/
def CalicoResource.document (r : CalicoResource) : Bool → Option Value → Value
  | true, some x => combine x r.settings
  | _, _ => r.settings

/-- The datastore after one resource is applied. -/
def configure (reads : ResourceKey → Bool) (ds : Datastore) (r : CalicoResource) : Datastore :=
  Function.update ds r.key (some (r.document (reads r.key) (ds r.key)))

/-- A run of the playbook: nothing is applied if the checks fail. -/
def calicoRun (F : Py.Format) (v : CalicoVars) (o : CalicoOutcome) (ds : Datastore) : Datastore :=
  let pool := if o.reads (calicoPool v).key then ds (calicoPool v).key else none
  if v.ignore_assert_errors || (checkCalico F v pool).isOk then
    ((calicoResources v).take o.applied).foldl (configure o.reads) ds
  else ds

section
variable {r : CalicoResource} {k : String} {x d : Value} {reads : ResourceKey → Bool}
  {ds : Datastore}

/-! ## One resource -/

theorem CalicoResource.keyed_settings (r : CalicoResource) : Keyed r.settings := by
  have hstr (s : String) : Keyed (.str s) := .scalar fun _ h => nomatch h
  refine .dict (by simp [Assoc.keys]) fun p hp => ?_
  simp only [List.mem_cons, List.not_mem_nil, or_false] at hp
  rcases hp with rfl | rfl | rfl | rfl
  · exact hstr _
  · exact hstr _
  · refine .dict (by simp [Assoc.keys]) fun p hp => ?_
    rw [List.mem_singleton] at hp
    subst hp
    exact hstr _
  · exact .dict r.keys_nodup fun p hp => .scalar (r.ne_dict p hp)

/-- The settings say of a key of the specification what they set it to. -/
theorem CalicoResource.getPath_settings (h : Assoc.lookup k r.spec = some x) :
    getPath ["spec", k] r.settings = .ok x := by
  refine getPath_cons_eq_ok.2 ⟨_, .dict r.spec, rfl, rfl, ?_⟩
  exact getPath_cons_eq_ok.2 ⟨_, x, rfl, h, rfl⟩

theorem CalicoResource.not_mentions_settings (h : k ∉ Assoc.keys r.spec) :
    ¬ Mentions r.settings ["spec", k] := by
  rintro ⟨y, hy, hspec⟩
  cases hy
  obtain ⟨z, hz, -⟩ := hspec
  rw [Assoc.lookup_eq_none.2 h] at hz
  cases hz

theorem configure_self :
    configure reads ds r r.key = some (r.document (reads r.key) (ds r.key)) :=
  Function.update_self ..

theorem configure_of_ne {key : ResourceKey} (h : r.key ≠ key) :
    configure reads ds r key = ds key :=
  Function.update_of_ne (Ne.symm h) _ _

/-- A setting that is made is there. -/
theorem getPath_configure (h : Assoc.lookup k r.spec = some x) :
    ∃ d, configure reads ds r r.key = some d ∧ getPath ["spec", k] d = .ok x := by
  refine ⟨_, configure_self, ?_⟩
  unfold CalicoResource.document
  split
  · have hx : ∀ kvs, x ≠ .dict kvs := r.ne_dict (k, x) (Assoc.mem_of_lookup h)
    exact getPath_combine_of_gives r.keyed_settings (r.getPath_settings h) hx _
  · exact r.getPath_settings h

/-- A setting that is not made stays, if the resource can be read. -/
theorem getPath_configure_of_not_mem (h : k ∉ Assoc.keys r.spec) (hreads : reads r.key = true)
    (hd : ds r.key = some d) (hx : getPath ["spec", k] d = .ok x) :
    ∃ d, configure reads ds r r.key = some d ∧ getPath ["spec", k] d = .ok x := by
  refine ⟨combine d r.settings, ?_, ?_⟩
  · rw [configure_self, hd, hreads]
    rfl
  · exact getPath_combine_of_not_mentions r.keyed_settings (r.not_mentions_settings h) hx

/-! ## One run -/

theorem foldl_configure_of_ne {rs : List CalicoResource} {key : ResourceKey}
    (h : ∀ r ∈ rs, r.key ≠ key) : rs.foldl (configure reads) ds key = ds key := by
  induction rs generalizing ds with
  | nil => rfl
  | cons r rs ih =>
    rw [List.foldl_cons, ih fun r hr => h r (List.mem_cons_of_mem _ hr),
      configure_of_ne (h r List.mem_cons_self)]

/-- What a run makes of a resource does not depend on the other resources. -/
theorem foldl_configure_of_mem {rs : List CalicoResource}
    (hnd : (rs.map CalicoResource.key).Nodup) (hr : r ∈ rs) :
    rs.foldl (configure reads) ds r.key = configure reads ds r r.key := by
  induction rs generalizing ds with
  | nil => cases hr
  | cons r' rs ih =>
    rw [List.map_cons, List.nodup_cons] at hnd
    have hother : ∀ r ∈ rs, r.key ≠ r'.key :=
      fun r hr heq => hnd.1 (List.mem_map.2 ⟨r, hr, heq⟩)
    rw [List.foldl_cons]
    rcases List.mem_cons.1 hr with rfl | hr
    · exact foldl_configure_of_ne hother
    · rw [ih hnd.2 hr, configure_self, configure_self, configure_of_ne (hother r hr).symm]

variable {v : CalicoVars}

theorem ipv6_key_ne (v : CalicoVars) : (calicoPool v).key ≠ (calicoPoolIpv6 v).key := by
  intro h
  have hname : v.calico_pool_name = v.calico_pool_name ++ "-ipv6" := (Prod.mk.inj h).2
  have hlength := congrArg String.length hname
  rw [String.length_append] at hlength
  exact absurd hlength (by simp)

/-- The resources of a run are different ones. -/
theorem nodup_calicoResources (v : CalicoVars) :
    ((calicoResources v).map CalicoResource.key).Nodup := by
  have hne := ipv6_key_ne v
  rw [calicoResources]
  split
  · simp only [List.cons_append, List.nil_append, List.map_cons, List.map_nil, List.nodup_cons,
      List.mem_cons, List.not_mem_nil, or_false, not_or, List.nodup_nil, and_true]
    simp_all [CalicoResource.key, felixConfig, calicoPool, calicoPoolIpv6, bgpConfig]
  · simp [CalicoResource.key, felixConfig, calicoPool, bgpConfig]

end

end Kubespray
