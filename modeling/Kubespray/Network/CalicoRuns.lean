import Kubespray.Lib.Transition
import Kubespray.Network.CalicoConfig

/-!
# The Calico resources over many runs

A run of the playbook stops anywhere, its variables differ from those of the runs before it, and the
resources are edited between the runs (`calicoRuns`). A pool that is there keeps its range, its
block size and its modes, and the Felix configuration keeps to the modes of the pool
(`pool_settled`): the checks stop a run with other variables before it applies anything, if they are
not ignored and the pool can be read.

The BGP configuration has no such check. Each of its settings is the last that some run has made
(`bgp_setting_stays`), so a run that no longer advertises the service addresses does not take the
advertisement back, unless it fails to read the resource.
-/

open Py (Value)
open Py.Value (getPath)

namespace Kubespray

def felixKey : ResourceKey := ("FelixConfiguration", "default")

def poolKey (name : String) : ResourceKey := ("IPPool", name)

def bgpKey : ResourceKey := ("BGPConfiguration", "default")

/-- The settings of a pool that a run checks. -/
structure PoolSettings where
  blockSize : Int
  cidr : String
  ipipMode : String
  vxlanMode : String

/-- The settings that the variables ask for. -/
def PoolSettings.ofVars (v : CalicoVars) : PoolSettings where
  blockSize := v.calico_pool_blocksize
  cidr := v.calico_pool_cidr
  ipipMode := v.calico_ipip_mode
  vxlanMode := v.calico_vxlan_mode

/-- The pool has these settings. -/
structure PoolSettings.SaidBy (c : PoolSettings) (pool : Value) : Prop where
  blockSize : getPath ["spec", "blockSize"] pool = .ok (.int c.blockSize)
  cidr : getPath ["spec", "cidr"] pool = .ok (.str c.cidr)
  ipipMode : getPath ["spec", "ipipMode"] pool = .ok (.str c.ipipMode)
  vxlanMode : getPath ["spec", "vxlanMode"] pool = .ok (.str c.vxlanMode)

/-- Felix tunnels as the pool does. -/
structure PoolSettings.FelixFollows (c : PoolSettings) (felix : Value) : Prop where
  ipip : getPath ["spec", "ipipEnabled"] felix = .ok (.bool (c.ipipMode != "Never"))
  vxlan : getPath ["spec", "vxlanEnabled"] felix = .ok (.bool (c.vxlanMode != "Never"))

/-- The pool and the Felix configuration agree, and there is one kind of tunnel at most. -/
structure Settled (name : String) (c : PoolSettings) (ds : Datastore) : Prop where
  pool : ∃ pool, ds (poolKey name) = some pool ∧ c.SaidBy pool
  felix : ∃ felix, ds felixKey = some felix ∧ c.FelixFollows felix
  exclusive : c.ipipMode = "Never" ∨ c.vxlanMode = "Never"

/-- The fields that are left to the role. -/
def managedPaths : List (List String) :=
  [["spec", "blockSize"], ["spec", "cidr"], ["spec", "ipipMode"], ["spec", "vxlanMode"],
    ["spec", "ipipEnabled"], ["spec", "vxlanEnabled"]]

/-- What happens to the resources. -/
inductive CalicoEvent where
  | run (v : CalicoVars) (o : CalicoOutcome)
  | edit (key : ResourceKey) (f : Value → Value)

/-- Runs for one pool, whose checks are made and can read the pool; and edits of resources that keep
the fields of the role. -/
def calicoRuns (F : Py.Format) (name : String) (first : Datastore → Prop) :
    TransitionSystem Datastore CalicoEvent where
  init := first
  step ds
    | .run v o, ds' => ds' = calicoRun F v o ds ∧ v.calico_pool_name = name ∧
        v.ignore_assert_errors = false ∧ o.reads (poolKey name) = true
    | .edit key f, ds' => ds' = Function.update ds key ((ds key).map f) ∧
        ∀ p ∈ managedPaths, ∀ d x, getPath p d = .ok x → getPath p (f d) = .ok x

section
variable {F : Py.Format} {name : String} {v : CalicoVars} {o : CalicoOutcome} {c : PoolSettings}
  {ds ds' : Datastore} {pool : Value}

/-! ## The checks -/

theorem undefinedOr_of_getPath {path : List String} {found expected : String} {d : Value}
    (h : getPath path d = .ok (.str found)) :
    undefinedOr path expected d = true ↔ found = expected := by
  rw [undefinedOr, h]
  simp

/-- A pool with these settings matches just the variables that ask for them. -/
theorem PoolSettings.SaidBy.poolMatches (h : c.SaidBy pool) :
    poolMatches F v pool = true ↔ PoolSettings.ofVars v = c := by
  obtain ⟨blockSize, cidr, ipipMode, vxlanMode⟩ := c
  rw [Kubespray.poolMatches, h.blockSize, h.cidr, Bool.and_eq_true, Bool.and_eq_true,
    undefinedOr_of_getPath h.ipipMode, undefinedOr_of_getPath h.vxlanMode, PoolSettings.ofVars,
    PoolSettings.mk.injEq]
  simp only [Bool.and_eq_true, intFilter, Py.Format.int, beq_iff_eq, Py.Value.isStr_iff,
    Py.Value.str.injEq, and_assoc]
  constructor
  · rintro ⟨h₁, h₂, h₃, h₄⟩
    exact ⟨h₁.symm, h₂.symm, h₃.symm, h₄.symm⟩
  · rintro ⟨h₁, h₂, h₃, h₄⟩
    exact ⟨h₁.symm, h₂.symm, h₃.symm, h₄.symm⟩

theorem checkCalico_isOk {found : Option Value} :
    (checkCalico F v found).isOk = true ↔ ∀ a ∈ calicoChecks F v found, a.that = true := by
  rw [checkCalico]
  cases hfind : (calicoChecks F v found).find? fun a => !a.that with
  | none => exact ⟨fun _ => by simpa using hfind, fun _ => rfl⟩
  | some a =>
    refine ⟨fun h => (Bool.false_ne_true h).elim, fun h => ?_⟩
    have hfails := List.find?_some hfind
    simp only [h a (List.mem_of_find?_eq_some hfind), Bool.not_true, Bool.false_eq_true] at hfails

/-- The modes of variables that pass the checks. -/
theorem exclusive_of_isOk {found : Option Value} (h : (checkCalico F v found).isOk = true) :
    v.calico_ipip_mode = "Never" ∨ v.calico_vxlan_mode = "Never" := by
  simp only [checkCalico_isOk, calicoChecks, List.forall_mem_cons, decide_eq_true_eq] at h
  obtain ⟨-, -, ⟨hipip, -⟩, hexclusive, -⟩ := h
  simp only [List.mem_cons, List.not_mem_nil, or_false] at hipip hexclusive
  rcases hipip with hipip | hipip | hipip
  · exact .inr (hexclusive (.inl hipip))
  · exact .inr (hexclusive (.inr hipip))
  · exact .inl hipip

/-- Variables that pass the checks match the pool that is there. -/
theorem poolMatches_of_isOk (h : (checkCalico F v (some pool)).isOk = true) :
    poolMatches F v pool = true := by
  simp only [checkCalico_isOk, calicoChecks, List.forall_mem_cons, Option.all_some] at h
  exact h.2.2.2.2.2.1

/-! ## One step -/

/-- A run changes nothing, or its checks are left out or pass. -/
theorem calicoRun_cases (F : Py.Format) (v : CalicoVars) (o : CalicoOutcome) (ds : Datastore) :
    calicoRun F v o ds = ds ∨
      calicoRun F v o ds = ((calicoResources v).take o.applied).foldl (configure o.reads) ds ∧
        (v.ignore_assert_errors = true ∨ ∃ found, (checkCalico F v found).isOk = true) := by
  unfold calicoRun
  extract_lets found
  split
  · next hok => exact .inr ⟨rfl, (Bool.or_eq_true _ _ ▸ hok).imp_right fun h => ⟨found, h⟩⟩
  · exact .inl rfl

/-- A run leaves a resource as it is, or applies it. -/
theorem foldl_configure_take (v : CalicoVars) (o : CalicoOutcome) (ds : Datastore)
    (key : ResourceKey) :
    ((calicoResources v).take o.applied).foldl (configure o.reads) ds key = ds key ∨
      ∃ r ∈ (calicoResources v).take o.applied, r.key = key ∧
        ((calicoResources v).take o.applied).foldl (configure o.reads) ds r.key =
          configure o.reads ds r r.key := by
  by_cases h : ∃ r ∈ (calicoResources v).take o.applied, r.key = key
  · obtain ⟨r, hr, hkey⟩ := h
    have hnd := (nodup_calicoResources v).sublist
      (List.Sublist.map _ (List.take_sublist o.applied _))
    exact .inr ⟨r, hr, hkey, foldl_configure_of_mem hnd hr⟩
  · exact .inl (foldl_configure_of_ne fun r hr hkey => h ⟨r, hr, hkey⟩)

theorem mem_calicoResources {r : CalicoResource} (h : r ∈ calicoResources v) :
    r = felixConfig v ∨ r = calicoPool v ∨ r = calicoPoolIpv6 v ∨ r = bgpConfig v := by
  rw [calicoResources] at h
  split at h
  · simpa using h
  · simp only [List.append_nil, List.cons_append, List.nil_append, List.mem_cons, List.not_mem_nil,
      or_false] at h
    rcases h with h | h | h
    · exact .inl h
    · exact .inr (.inl h)
    · exact .inr (.inr (.inr h))

/-- Only the Felix configuration is set under its key. -/
theorem eq_felixConfig {r : CalicoResource} (h : r ∈ calicoResources v) (hkey : r.key = felixKey) :
    r = felixConfig v := by
  rcases mem_calicoResources h with rfl | rfl | rfl | rfl
  · rfl
  all_goals
    simp [CalicoResource.key, felixKey, calicoPool, calicoPoolIpv6, bgpConfig] at hkey

/-- Only the pool is set under its key. -/
theorem eq_calicoPool {r : CalicoResource} (h : r ∈ calicoResources v)
    (hkey : r.key = poolKey v.calico_pool_name) : r = calicoPool v := by
  rcases mem_calicoResources h with rfl | rfl | rfl | rfl
  · simp [CalicoResource.key, poolKey, felixConfig] at hkey
  · rfl
  · exact absurd hkey (ipv6_key_ne v).symm
  · simp [CalicoResource.key, poolKey, bgpConfig] at hkey

theorem felixFollows_of_applied (reads : ResourceKey → Bool) (v : CalicoVars) (ds : Datastore) :
    ∃ felix, configure reads ds (felixConfig v) felixKey = some felix ∧
      (PoolSettings.ofVars v).FelixFollows felix := by
  have hset (k : String) (x : Value) (h : Assoc.lookup k (felixConfig v).spec = some x) :
      ∃ felix, configure reads ds (felixConfig v) felixKey = some felix ∧
        getPath ["spec", k] felix = .ok x :=
    getPath_configure h
  obtain ⟨felix, hfelix, hipip⟩ := hset "ipipEnabled" _ rfl
  obtain ⟨felix', hfelix', hvxlan⟩ := hset "vxlanEnabled" _ rfl
  cases hfelix.symm.trans hfelix'
  exact ⟨felix, hfelix, hipip, hvxlan⟩

theorem saidBy_of_applied (reads : ResourceKey → Bool) (v : CalicoVars) (ds : Datastore) :
    ∃ pool, configure reads ds (calicoPool v) (poolKey v.calico_pool_name) = some pool ∧
      (PoolSettings.ofVars v).SaidBy pool := by
  have hset (k : String) (x : Value) (h : Assoc.lookup k (calicoPool v).spec = some x) :
      getPath ["spec", k] ((calicoPool v).document (reads (calicoPool v).key)
        (ds (calicoPool v).key)) = .ok x := by
    obtain ⟨pool, hpool, hx⟩ : ∃ pool, configure reads ds (calicoPool v) (calicoPool v).key =
      some pool ∧ getPath ["spec", k] pool = .ok x := getPath_configure h
    rw [configure_self] at hpool
    cases hpool
    exact hx
  exact ⟨_, configure_self, hset _ _ rfl, hset _ _ rfl, hset _ _ rfl, hset _ _ rfl⟩

/-- A run with variables that ask for these settings keeps what is settled. -/
theorem Settled.run (h : Settled v.calico_pool_name (.ofVars v) ds) (o : CalicoOutcome) :
    Settled v.calico_pool_name (.ofVars v)
      (((calicoResources v).take o.applied).foldl (configure o.reads) ds) := by
  refine ⟨?_, ?_, h.exclusive⟩
  · rcases foldl_configure_take v o ds (poolKey v.calico_pool_name) with hsame | ⟨r, hr, hkey, heq⟩
    · rw [hsame]
      exact h.pool
    · cases eq_calicoPool (List.mem_of_mem_take hr) hkey
      obtain ⟨pool, hpool, hsaid⟩ := saidBy_of_applied o.reads v ds
      exact ⟨pool, heq.trans hpool, hsaid⟩
  · rcases foldl_configure_take v o ds felixKey with hsame | ⟨r, hr, hkey, heq⟩
    · rw [hsame]
      exact h.felix
    · cases eq_felixConfig (List.mem_of_mem_take hr) hkey
      obtain ⟨felix, hfelix, hfollows⟩ := felixFollows_of_applied o.reads v ds
      exact ⟨felix, heq.trans hfelix, hfollows⟩

/-- A run that creates the pool has applied the Felix configuration before. -/
theorem settled_of_created (o : CalicoOutcome) (hnone : ds (poolKey v.calico_pool_name) = none)
    (hpool : ((calicoResources v).take o.applied).foldl (configure o.reads) ds
      (poolKey v.calico_pool_name) ≠ none)
    (hexclusive : v.calico_ipip_mode = "Never" ∨ v.calico_vxlan_mode = "Never") :
    Settled v.calico_pool_name (.ofVars v)
      (((calicoResources v).take o.applied).foldl (configure o.reads) ds) := by
  rcases foldl_configure_take v o ds (poolKey v.calico_pool_name) with hsame | ⟨r, hr, hkey, heq⟩
  · exact absurd (hsame.trans hnone) hpool
  · cases eq_calicoPool (List.mem_of_mem_take hr) hkey
    have hfelix : felixConfig v ∈ (calicoResources v).take o.applied := by
      cases happlied : o.applied with
      | zero =>
        rw [happlied] at hr
        cases hr
      | succ n => exact List.mem_cons_self
    have hnd := (nodup_calicoResources v).sublist
      (List.Sublist.map _ (List.take_sublist o.applied _))
    obtain ⟨pool, hpool, hsaid⟩ := saidBy_of_applied o.reads v ds
    obtain ⟨felix, hfelix', hfollows⟩ := felixFollows_of_applied o.reads v ds
    exact ⟨⟨pool, heq.trans hpool, hsaid⟩,
      ⟨felix, (foldl_configure_of_mem hnd hfelix).trans hfelix', hfollows⟩, hexclusive⟩

/-- An edit that keeps the fields of the role. -/
theorem Settled.edit (h : Settled name c ds) {key : ResourceKey} {f : Value → Value}
    (hf : ∀ p ∈ managedPaths, ∀ d x, getPath p d = .ok x → getPath p (f d) = .ok x) :
    Settled name c (Function.update ds key ((ds key).map f)) := by
  have hkey : ∀ key' d, ds key' = some d → ∃ d', Function.update ds key ((ds key).map f) key' =
      some d' ∧ (d' = d ∨ d' = f d) := by
    intro key' d hd
    by_cases heq : key' = key
    · subst heq
      rw [Function.update_self, hd]
      exact ⟨f d, rfl, .inr rfl⟩
    · rw [Function.update_of_ne heq, hd]
      exact ⟨d, rfl, .inl rfl⟩
  obtain ⟨pool, hpool, hsaid⟩ := h.pool
  obtain ⟨felix, hfelix, hfollows⟩ := h.felix
  obtain ⟨pool', hpool', hp⟩ := hkey _ _ hpool
  obtain ⟨felix', hfelix', hq⟩ := hkey _ _ hfelix
  have hkeeps : ∀ p ∈ managedPaths, ∀ d d' x, d' = d ∨ d' = f d → getPath p d = .ok x →
      getPath p d' = .ok x := by
    rintro p hp d d' x (rfl | rfl) hx
    · exact hx
    · exact hf p hp d x hx
  refine ⟨⟨pool', hpool', ?_⟩, ⟨felix', hfelix', ?_⟩, h.exclusive⟩
  · exact ⟨hkeeps _ (by simp [managedPaths]) _ _ _ hp hsaid.blockSize,
      hkeeps _ (by simp [managedPaths]) _ _ _ hp hsaid.cidr,
      hkeeps _ (by simp [managedPaths]) _ _ _ hp hsaid.ipipMode,
      hkeeps _ (by simp [managedPaths]) _ _ _ hp hsaid.vxlanMode⟩
  · exact ⟨hkeeps _ (by simp [managedPaths]) _ _ _ hq hfollows.ipip,
      hkeeps _ (by simp [managedPaths]) _ _ _ hq hfollows.vxlan⟩

/-- A run whose variables ask for other settings than those of the pool changes nothing. -/
theorem Settled.refused (h : Settled v.calico_pool_name c ds)
    (hreads : o.reads (poolKey v.calico_pool_name) = true)
    (hassert : v.ignore_assert_errors = false) (hne : PoolSettings.ofVars v ≠ c) :
    calicoRun F v o ds = ds := by
  obtain ⟨pool, hpool, hsaid⟩ := h.pool
  have hread : (if o.reads (calicoPool v).key then ds (calicoPool v).key else none) =
      some pool := by
    rw [show (calicoPool v).key = poolKey v.calico_pool_name from rfl, hreads, hpool]
    rfl
  have hfails : (checkCalico F v (some pool)).isOk = false :=
    Bool.eq_false_iff.2 fun hok => hne (hsaid.poolMatches.1 (poolMatches_of_isOk hok))
  rw [calicoRun, hread, hassert, hfails]
  rfl

/-- What is settled stays settled. -/
theorem Settled.step {first : Datastore → Prop} {e : CalicoEvent} (h : Settled name c ds)
    (hstep : (calicoRuns F name first).step ds e ds') : Settled name c ds' := by
  cases e with
  | run v o =>
    obtain ⟨rfl, rfl, hassert, hreads⟩ := hstep
    by_cases heq : PoolSettings.ofVars v = c
    · subst heq
      rcases calicoRun_cases F v o ds with heq | ⟨heq, -⟩
      · rw [heq]
        exact h
      · rw [heq]
        exact h.run o
    · rw [h.refused hreads hassert heq]
      exact h
  | edit key f =>
    obtain ⟨rfl, hf⟩ := hstep
    exact h.edit hf

/-! ## All runs -/

/-- What is settled stays settled in all later runs. -/
theorem Settled.reachable (h : Settled name c ds)
    (hr : (calicoRuns F name (· = ds)).Reachable ds') : Settled name c ds' :=
  hr.invariant (fun _ heq => heq ▸ h) fun _ _ _ _ h hstep => h.step hstep

theorem settled_of_reachable
    (hr : (calicoRuns F name (fun ds => ds (poolKey name) = none)).Reachable ds) :
    ds (poolKey name) = none ∨ ∃ c, Settled name c ds := by
  let Inv : Datastore → Prop := fun ds => ds (poolKey name) = none ∨ ∃ c, Settled name c ds
  refine hr.invariant (show ∀ ds : Datastore, ds (poolKey name) = none → Inv ds from
    fun _ h => .inl h) fun ds e ds' _ h hstep => ?_
  rcases h with hnone | ⟨c, h⟩
  · cases e with
    | run v o =>
      obtain ⟨rfl, rfl, hassert, hreads⟩ := hstep
      rcases calicoRun_cases F v o ds with heq | ⟨heq, hchecks⟩
      · rw [heq]
        exact .inl hnone
      · rw [heq]
        by_cases hpool : ((calicoResources v).take o.applied).foldl (configure o.reads) ds
            (poolKey v.calico_pool_name) = none
        · exact .inl hpool
        · rw [hassert] at hchecks
          obtain ⟨_, hok⟩ := hchecks.resolve_left Bool.false_ne_true
          exact .inr ⟨_, settled_of_created o hnone hpool (exclusive_of_isOk hok)⟩
    | edit key f =>
      obtain ⟨rfl, -⟩ := hstep
      left
      by_cases heq : poolKey name = key
      · subst heq
        rw [Function.update_self, hnone]
        rfl
      · rw [Function.update_of_ne heq, hnone]
  · exact .inr ⟨c, h.step hstep⟩

/-- Once there is a pool, it and the Felix configuration agree on at most one kind of tunnel; later
runs whose checks are made and can read the pool leave the range, the block size and the modes as
they are, and such a run with other ones changes no resource at all. -/
theorem pool_settled
    (hr : (calicoRuns F name (fun ds => ds (poolKey name) = none)).Reachable ds)
    (hpool : ds (poolKey name) ≠ none) :
    ∃ c, Settled name c ds ∧
      (∀ ds', (calicoRuns F name (· = ds)).Reachable ds' → Settled name c ds') ∧
      ∀ v o, v.calico_pool_name = name → v.ignore_assert_errors = false →
        o.reads (poolKey name) = true → PoolSettings.ofVars v ≠ c → calicoRun F v o ds = ds := by
  obtain ⟨c, h⟩ := (settled_of_reachable hr).resolve_left hpool
  refine ⟨c, h, fun ds' hr' => h.reachable hr', ?_⟩
  rintro v o rfl hassert hreads hne
  exact h.refused hreads hassert hne

end

/-- The variables of a cluster with the defaults of the roles. -/
def defaultCalicoVars : CalicoVars where
  ignore_assert_errors := false
  calico_network_backend := "vxlan"
  calico_ipip_mode := "Never"
  calico_vxlan_mode := "Always"
  calico_felix_reporting_interval := "0s"
  calico_bpf_log_level := ""
  calico_bpf_enabled := false
  calico_bpf_service_mode := "Tunnel"
  calico_wireguard_enabled := false
  calico_felix_log_severity_screen := "Info"
  calico_pool_name := "default-pool"
  calico_pool_blocksize := 26
  calico_pool_cidr := "10.233.64.0/18"
  nat_outgoing := true
  peer_with_router := false
  enable_dual_stack_networks := false
  calico_pool_blocksize_ipv6 := 122
  calico_pool_cidr_ipv6 := "fd85:ee78:d8a6:8607::1:0000/112"
  calico_ipip_mode_ipv6 := "Never"
  calico_vxlan_mode_ipv6 := "Never"
  nat_outgoing_ipv6 := false
  peer_with_router_ipv6 := false
  peer_with_calico_rr := false
  calico_bgp_listen_port := 179
  calico_no_global_as_num := false
  global_as_num := 64512
  calico_advertise_cluster_ips := false
  kube_service_addresses := "10.233.0.0/18"
  kube_service_addresses_ipv6 := "fd85:ee78:d8a6:8607::1000/116"
  calico_advertise_service_loadbalancer_ips := []
  calico_advertise_service_external_ips := []

/-- A run that meets no failure. -/
def undisturbed : CalicoOutcome := ⟨fun _ => true, 4⟩

def plainFormat : Py.Format := ⟨fun _ => "", fun _ => 0, fun _ => none⟩

/-- The runs of a new cluster. -/
def defaultRuns : TransitionSystem Datastore CalicoEvent :=
  calicoRuns plainFormat "default-pool" fun ds => ds (poolKey "default-pool") = none

/-- The first run with the defaults creates the pool. -/
theorem pool_settled_default :
    ∃ ds, defaultRuns.Reachable ds ∧ ∃ c, Settled "default-pool" c ds := by
  have hinit : defaultRuns.Reachable fun _ => none := .init rfl
  have hrun : defaultRuns.Reachable
      (calicoRun plainFormat defaultCalicoVars undisturbed fun _ => none) :=
    hinit.step (a := .run defaultCalicoVars undisturbed) ⟨rfl, rfl, rfl, rfl⟩
  obtain ⟨c, hc, -⟩ := pool_settled hrun (by decide)
  exact ⟨_, hrun, c, hc⟩

section
variable {F : Py.Format} {v : CalicoVars} {o : CalicoOutcome} {ds : Datastore}

/-! ## The BGP configuration -/

/-- A run of the playbook that applies all resources. -/
structure Completes (F : Py.Format) (ds : Datastore) (v : CalicoVars) (o : CalicoOutcome) :
    Prop where
  checks : calicoRun F v o ds = ((calicoResources v).take o.applied).foldl (configure o.reads) ds
  applied : (calicoResources v).length ≤ o.applied

theorem eq_bgpConfig {r : CalicoResource} (h : r ∈ calicoResources v) (hkey : r.key = bgpKey) :
    r = bgpConfig v := by
  rcases mem_calicoResources h with rfl | rfl | rfl | rfl
  · simp [CalicoResource.key, bgpKey, felixConfig] at hkey
  · simp [CalicoResource.key, bgpKey, calicoPool] at hkey
  · simp [CalicoResource.key, bgpKey, calicoPoolIpv6] at hkey
  · rfl

/-- A setting that a run does not make stays. -/
theorem bgp_setting_run {k : String} {x bgp : Value} (hk : k ∉ Assoc.keys (bgpSpec v))
    (hreads : o.reads bgpKey = true) (hbgp : ds bgpKey = some bgp)
    (hx : getPath ["spec", k] bgp = .ok x) :
    ∃ bgp, calicoRun F v o ds bgpKey = some bgp ∧ getPath ["spec", k] bgp = .ok x := by
  rcases calicoRun_cases F v o ds with hsame | ⟨happlied, -⟩
  · rw [hsame]
    exact ⟨bgp, hbgp, hx⟩
  · rw [happlied]
    rcases foldl_configure_take v o ds bgpKey with hsame | ⟨r, hr, hkey, heq⟩
    · exact ⟨bgp, hsame.trans hbgp, hx⟩
    · cases eq_bgpConfig (List.mem_of_mem_take hr) hkey
      obtain ⟨bgp', hbgp', hx'⟩ := getPath_configure_of_not_mem (r := bgpConfig v) hk hreads hbgp hx
      exact ⟨bgp', heq.trans hbgp', hx'⟩

/-- A setting is what the last run that makes it has made it: runs after it that do not make it and
can read the resource, wherever they stop, leave it as it is. -/
theorem bgp_setting_stays {k : String} {x : Value} (hk : Assoc.lookup k (bgpSpec v) = some x)
    (hcompletes : Completes F ds v o) (later : List (CalicoVars × CalicoOutcome))
    (hlater : ∀ run ∈ later, k ∉ Assoc.keys (bgpSpec run.1) ∧ run.2.reads bgpKey = true) :
    ∃ bgp, later.foldl (fun ds run => calicoRun F run.1 run.2 ds) (calicoRun F v o ds) bgpKey =
      some bgp ∧ getPath ["spec", k] bgp = .ok x := by
  have hfirst : ∃ bgp, calicoRun F v o ds bgpKey = some bgp ∧
      getPath ["spec", k] bgp = .ok x := by
    rw [hcompletes.checks, List.take_of_length_le hcompletes.applied]
    have hbgp : bgpConfig v ∈ calicoResources v := by
      rw [calicoResources]
      exact List.mem_append_right _ List.mem_cons_self
    obtain ⟨bgp, hbgp', hx⟩ : ∃ bgp, configure o.reads ds (bgpConfig v) bgpKey = some bgp ∧
      getPath ["spec", k] bgp = .ok x := getPath_configure hk
    exact ⟨bgp, (foldl_configure_of_mem (nodup_calicoResources v) hbgp).trans hbgp', hx⟩
  generalize calicoRun F v o ds = ds' at hfirst ⊢
  induction later generalizing ds' with
  | nil => exact hfirst
  | cons run later ih =>
    obtain ⟨bgp, hbgp, hx⟩ := hfirst
    obtain ⟨hnot, hreads⟩ := hlater run List.mem_cons_self
    exact ih (fun r hr => hlater r (List.mem_cons_of_mem _ hr)) _
      (bgp_setting_run hnot hreads hbgp hx)

end

/-- The defaults, with the service addresses advertised. -/
def advertisingVars : CalicoVars := { defaultCalicoVars with calico_advertise_cluster_ips := true }

/-- The service addresses stay advertised in a run that does not advertise them. -/
theorem bgp_setting_stays_default :
    ∃ bgp, calicoRun plainFormat defaultCalicoVars undisturbed
        (calicoRun plainFormat advertisingVars undisturbed fun _ => none) bgpKey = some bgp ∧
      getPath ["spec", "serviceClusterIPs"] bgp = .ok (cidrs ["10.233.0.0/18"]) := by
  have hcompletes : Completes plainFormat (fun _ => none) advertisingVars undisturbed :=
    ⟨rfl, by decide⟩
  have hlater : ∀ run ∈ [(defaultCalicoVars, undisturbed)],
      "serviceClusterIPs" ∉ Assoc.keys (bgpSpec run.1) ∧ run.2.reads bgpKey = true := by
    intro run hrun
    cases List.mem_singleton.1 hrun
    exact ⟨by decide, rfl⟩
  exact bgp_setting_stays (k := "serviceClusterIPs") rfl hcompletes _ hlater

end Kubespray
