import Kubespray.Etcd.Members

/-!
# The quorum check of the recovery

`roles/recover_control_plane/etcd` decides from the output of `etcdctl endpoint health` whether the
old cluster still has a quorum. The endpoints are those of the etcd group of the inventory, in which
the new hosts stand already, so the check weighs the surviving members against the hosts that are
still to join. `recover_lost_quorum_iff` says when its answer is that of the old membership;
`recover_lost_quorum_fails` is a cluster with a quorum whose first host loses its data directory.
-/

namespace Kubespray

/-- The output of `etcdctl endpoint health`. -/
structure EndpointHealth where
  /-- `etcd_endpoint_health.stdout_lines`. -/
  stdoutLines : List String
  /-- `etcd_endpoint_health.stderr_lines`. -/
  stderrLines : List String
  deriving DecidableEq, Repr

/-- The endpoint of a host in `etcd_access_addresses`. -/
def accessEndpoint (h : EtcdHost) : String :=
  clientUrl (h.ownAccessAddress.getD (h.ip.getD h.fallbackIp))

/-- The line on a healthy endpoint, with the rest of its text. -/
def healthyLine (endpoint detail : String) : String := endpoint ++ " is healthy: " ++ detail

/-- The line on an unhealthy endpoint, with the rest of its text. -/
def unhealthyLine (endpoint detail : String) : String := endpoint ++ " is unhealthy: " ++ detail

/-- `etcdctl endpoint health` for the endpoints of these hosts: one line for each, on stdout for the
healthy ones and on stderr for the others. -/
def endpointHealth (hosts : List EtcdHost) (healthy : EtcdHost → Bool)
    (detail : EtcdHost → String) : EndpointHealth where
  stdoutLines := (hosts.filter healthy).map fun h => healthyLine (accessEndpoint h) (detail h)
  stderrLines :=
    ((hosts.filter (!healthy ·)).map fun h => unhealthyLine (accessEndpoint h) (detail h)) ++
      if hosts.all healthy then [] else ["Error: unhealthy cluster"]

/-- `Set has_quorum fact`. The pattern `.*text.*` of the test `match` selects the lines in which the
text stands. -/
def hasQuorum (health : EndpointHealth) : Bool :=
  decide ((health.stdoutLines.filter (Grep.selects "is healthy")).length ≥
    (health.stderrLines.filter (Grep.selects "is unhealthy")).length)

/-- The play on `etcd[0]` includes `recover_lost_quorum.yml`. -/
def entersRecoverLostQuorum (etcd : List EtcdHost) (brokenEtcd : List String)
    (health : EndpointHealth) : Bool :=
  !etcd.isEmpty && !brokenEtcd.isEmpty && !hasQuorum health

/-! ## The old membership and the inventory -/

/-- An old cluster with members that are down, and the etcd group that replaces it. -/
structure Outage where
  /-- The hosts of the old members. -/
  members : List String
  members_nodup : members.Nodup
  /-- The hosts whose members are down. -/
  down : List String
  /-- The etcd group of the inventory. -/
  etcd : List EtcdHost
  etcd_nodup : (etcd.map EtcdHost.name).Nodup
  /-- The group has the surviving members. -/
  survivors_mem : ∀ name ∈ members, name ∉ down → name ∈ etcd.map EtcdHost.name

namespace Outage

variable (o : Outage)

/-- The members that are up. -/
def survivors : List String := o.members.filter (· ∉ o.down)

/-- The survivors are a strict majority of the old membership. -/
def HasMajority : Prop := o.members.length < 2 * o.survivors.length

instance : Decidable o.HasMajority := inferInstanceAs (Decidable (_ < _))

/-- The hosts of the group on which etcd does not run yet. -/
def newHosts : List EtcdHost := o.etcd.filter (·.name ∉ o.survivors)

/-- The endpoint is reported as healthy: that of a survivor, if the survivors have a quorum. -/
def answers (h : EtcdHost) : Bool := decide (h.name ∈ o.survivors ∧ o.HasMajority)

/-- What `etcdctl endpoint health` prints in the outage. -/
def health (detail : EtcdHost → String) : EndpointHealth := endpointHealth o.etcd o.answers detail

/-- The check can tell whether the quorum is lost: the new hosts do not outnumber the survivors that
have a quorum, and the role does run where they have none. -/
def Recognized (brokenEtcd : List String) : Prop :=
  if o.HasMajority then brokenEtcd = [] ∨ o.newHosts.length ≤ o.survivors.length
  else brokenEtcd ≠ [] ∧ o.etcd ≠ []

instance (brokenEtcd : List String) : Decidable (o.Recognized brokenEtcd) := by
  unfold Recognized
  infer_instance

end Outage

/-! ## Counting the lines -/

section
variable {hosts : List EtcdHost} {healthy : EtcdHost → Bool} {detail : EtcdHost → String}

theorem selects_healthyLine (endpoint detail : String) :
    Grep.selects "is healthy" (healthyLine endpoint detail) = true := by
  refine Grep.selects_of_infix
    ⟨endpoint.toList ++ " ".toList, ": ".toList ++ detail.toList, ?_⟩
  simp [healthyLine]

theorem selects_unhealthyLine (endpoint detail : String) :
    Grep.selects "is unhealthy" (unhealthyLine endpoint detail) = true := by
  refine Grep.selects_of_infix
    ⟨endpoint.toList ++ " ".toList, ": ".toList ++ detail.toList, ?_⟩
  simp [unhealthyLine]

/-- Every line of stdout counts as healthy. -/
theorem filter_stdoutLines :
    (endpointHealth hosts healthy detail).stdoutLines.filter (Grep.selects "is healthy") =
      (endpointHealth hosts healthy detail).stdoutLines := by
  refine List.filter_eq_self.2 fun line hline => ?_
  obtain ⟨h, -, rfl⟩ := List.mem_map.1 hline
  exact selects_healthyLine _ _

/-- Of stderr the lines on the endpoints count as unhealthy, and the last line does not. -/
theorem filter_stderrLines :
    (endpointHealth hosts healthy detail).stderrLines.filter (Grep.selects "is unhealthy") =
      (hosts.filter (!healthy ·)).map fun h => unhealthyLine (accessEndpoint h) (detail h) := by
  have hlast : (if hosts.all healthy then [] else ["Error: unhealthy cluster"]).filter
      (Grep.selects "is unhealthy") = [] := by
    split
    · rfl
    · decide
  have hlines : ∀ line ∈ (hosts.filter (!healthy ·)).map
      fun h => unhealthyLine (accessEndpoint h) (detail h),
      Grep.selects "is unhealthy" line = true := by
    intro line hline
    obtain ⟨h, -, rfl⟩ := List.mem_map.1 hline
    exact selects_unhealthyLine _ _
  rw [endpointHealth, List.filter_append, hlast, List.append_nil, List.filter_eq_self.2 hlines]

/-- The check compares the numbers of the healthy and of the unhealthy endpoints. -/
theorem hasQuorum_iff :
    hasQuorum (endpointHealth hosts healthy detail) = true ↔
      (hosts.filter (!healthy ·)).length ≤ (hosts.filter healthy).length := by
  rw [hasQuorum, filter_stdoutLines, filter_stderrLines, decide_eq_true_iff, List.length_map,
    endpointHealth, List.length_map]

end

namespace Outage

variable {o : Outage} {detail : EtcdHost → String} {brokenEtcd : List String}

/-- The hosts of the group that are survivors are as many as the survivors. -/
theorem length_filter_survivors :
    (o.etcd.filter (·.name ∈ o.survivors)).length = o.survivors.length := by
  have hmap : (o.etcd.filter (·.name ∈ o.survivors)).map EtcdHost.name =
      (o.etcd.map EtcdHost.name).filter (· ∈ o.survivors) := by
    rw [List.filter_map]
    rfl
  have hperm : ((o.etcd.map EtcdHost.name).filter (· ∈ o.survivors)).Perm o.survivors := by
    refine (List.perm_ext_iff_of_nodup (o.etcd_nodup.filter _) (o.members_nodup.filter _)).2
      fun name => ?_
    rw [List.mem_filter, decide_eq_true_iff]
    refine ⟨And.right, fun hname => ⟨?_, hname⟩⟩
    have hmem := List.mem_filter.1 hname
    exact o.survivors_mem name hmem.1 (by simpa using hmem.2)
  rw [← List.length_map EtcdHost.name, hmap, hperm.length_eq]

/-- With a quorum the survivors answer and the new hosts do not. -/
theorem hasQuorum_of_hasMajority (hmaj : o.HasMajority) :
    hasQuorum (o.health detail) = true ↔ o.newHosts.length ≤ o.survivors.length := by
  have hanswers : o.answers = fun h => decide (h.name ∈ o.survivors) := by
    funext h
    simp [answers, hmaj]
  rw [health, hasQuorum_iff, ← length_filter_survivors, newHosts, hanswers]
  simp only [decide_not]

/-- Without a quorum no endpoint is healthy. -/
theorem hasQuorum_of_not_hasMajority (hmaj : ¬ o.HasMajority) :
    hasQuorum (o.health detail) = true ↔ o.etcd = [] := by
  have hanswers : o.answers = fun _ => false := by
    funext h
    simp [answers, hmaj]
  rw [health, hasQuorum_iff, hanswers]
  simp

end Outage

/-- The role restores a cluster of one member exactly when the survivors are not a majority of the
old members, iff the quorum check can tell this from the group. -/
theorem recover_lost_quorum_iff (o : Outage) (brokenEtcd : List String)
    (detail : EtcdHost → String) :
    (entersRecoverLostQuorum o.etcd brokenEtcd (o.health detail) = true ↔ ¬ o.HasMajority) ↔
      o.Recognized brokenEtcd := by
  have henters : entersRecoverLostQuorum o.etcd brokenEtcd (o.health detail) = true ↔
      o.etcd ≠ [] ∧ brokenEtcd ≠ [] ∧ ¬ hasQuorum (o.health detail) = true := by
    simp [entersRecoverLostQuorum, and_assoc]
  rw [henters, Outage.Recognized]
  by_cases hmaj : o.HasMajority
  · rw [Outage.hasQuorum_of_hasMajority hmaj, if_pos hmaj]
    -- an empty group has no new hosts
    have hnil : o.etcd = [] → o.newHosts.length ≤ o.survivors.length := by
      intro h
      simp [Outage.newHosts, h]
    simp only [hmaj, not_true_eq_false, iff_false]
    tauto
  · rw [Outage.hasQuorum_of_not_hasMajority hmaj, if_neg hmaj]
    simp only [hmaj, not_false_eq_true, iff_true]
    tauto

/-- Three members of which the third is down, and an etcd group of the other two with three new
hosts. -/
def exampleOutage : Outage where
  members := ["node1", "node2", "node3"]
  members_nodup := by decide
  down := ["node3"]
  etcd := ["node1", "node2", "node4", "node5", "node6"].map fun name =>
    { name, fallbackIp := address1 }
  etcd_nodup := by decide
  survivors_mem := by decide

/-- Two of three members are up, but three new hosts are not yet. -/
theorem recover_lost_quorum_fails :
    exampleOutage.HasMajority ∧
      entersRecoverLostQuorum exampleOutage.etcd ["node3"]
        (exampleOutage.health fun _ => "context deadline exceeded") = true := by
  decide +kernel

end Kubespray
