import Kubespray.Lib.Cidr
import Mathlib.Algebra.Order.Field.Power
import Mathlib.Data.Rat.Cast.Order

/-!
# Address plans

The assertions of `0020-verify-settings.yml` on the networks of pods and services. They ask that the
network of the pods does not lie in that of the services, but not the converse:
`accepted_usable_iff` says that an accepted plan gives every node its subnet, and that the networks
are apart iff the network of the services does not lie in that of the pods; `accepted_usable_fails`
is a plan where it does. -/

namespace Kubespray

/-- An IPv4 network. -/
abbrev Network := Cidr 32

/-- The settings that the assertions read. -/
structure AddressPlan where
  kubePodsSubnet : Network
  kubeServiceAddresses : Network
  kubeNetworkNodePrefix : ℤ
  kubeletMaxPods : ℕ
  kubeNetworkPlugin : String
  ignoreAssertErrors : Bool
  /-- The number of hosts in the group `k8s_cluster`. -/
  k8sCluster : ℕ
  kubeletMaxPods_pos : 1 ≤ kubeletMaxPods
  k8sCluster_pos : 1 ≤ k8sCluster

namespace AddressPlan

variable (plan : AddressPlan)

/-! ## The assertions -/

/-- `network | ipaddr(net)`. -/
def ipaddr (network net : Network) : Option Network := if network ⊆ net then some network else none

/-- `Guarantee that enough network address space is available for all pods`. -/
def EnoughForPods : Prop :=
  plan.ignoreAssertErrors = false → plan.kubeNetworkPlugin ≠ "calico" →
    (plan.kubeletMaxPods : ℚ) ≤ 2 ^ (32 - plan.kubeNetworkNodePrefix) - 2

/-- `Check that kube_pods_subnet does not collide with kube_service_addresses`. -/
def NoCollision : Prop := (ipaddr plan.kubePodsSubnet plan.kubeServiceAddresses).isNone

/-- `Check that IP range is enough for the nodes`. -/
def EnoughForNodes : Prop :=
  (plan.k8sCluster : ℚ) ≤ 2 ^ (plan.kubeNetworkNodePrefix - plan.kubePodsSubnet.prefixlen)

instance : Decidable plan.EnoughForPods := inferInstanceAs (Decidable (_ → _ → _))

instance : Decidable plan.NoCollision := inferInstanceAs (Decidable (_ = _))

instance : Decidable plan.EnoughForNodes := inferInstanceAs (Decidable (_ ≤ _))

/-- The assertions on the networks pass, where `isNet` is the filter `ipaddr('net')`. -/
structure Accepted (isNet : Network → Bool) : Prop where
  enoughForPods : plan.EnoughForPods
  serviceAddresses_net : isNet plan.kubeServiceAddresses
  podsSubnet_net : isNet plan.kubePodsSubnet
  noCollision : plan.NoCollision
  enoughForNodes : plan.EnoughForNodes

/-! ## Usable plans -/

/-- The subnet can be the one of a node. -/
def NodeSubnet (subnet : Network) : Prop :=
  (subnet.prefixlen : ℤ) = plan.kubeNetworkNodePrefix ∧ subnet ⊆ plan.kubePodsSubnet ∧
    plan.kubeletMaxPods ≤ subnet.hosts.card

/-- There is a subnet for every node. -/
def HasNodeSubnets : Prop :=
  ∃ subnets : Fin plan.k8sCluster → Network,
    (∀ i j, i ≠ j → (subnets i).Disjoint (subnets j)) ∧ ∀ i, plan.NodeSubnet (subnets i)

/-- No address is one of a pod and of a service, and there is a subnet for every node. -/
def Usable : Prop := plan.kubePodsSubnet.Disjoint plan.kubeServiceAddresses ∧ plan.HasNodeSubnets

variable {plan}

/-! ## What the assertions give -/

theorem noCollision_iff : plan.NoCollision ↔ ¬ plan.kubePodsSubnet ⊆ plan.kubeServiceAddresses := by
  rw [NoCollision, ipaddr]
  split <;> simp_all

/-- A power of two that is at least one has an exponent that is not negative. -/
theorem exists_exponent {n : ℕ} {e : ℤ} (hn : 1 ≤ n) (h : (n : ℚ) ≤ 2 ^ e) :
    ∃ k : ℕ, e = k ∧ n ≤ 2 ^ k := by
  have hone : (1 : ℚ) ≤ 2 ^ e := le_trans (by exact_mod_cast hn) h
  have he : 0 ≤ e := by
    by_contra hneg
    have hlt : (2 : ℚ) ^ e < 1 := zpow_lt_one_of_neg₀ one_lt_two (not_le.1 hneg)
    exact absurd hone (not_le.2 hlt)
  lift e to ℕ using he
  refine ⟨e, rfl, ?_⟩
  rw [zpow_natCast] at h
  exact_mod_cast h

/-- The prefix of a node is not shorter than the one of the pods, and no number of nodes is too
large. -/
theorem EnoughForNodes.nodePrefix (h : plan.EnoughForNodes) :
    ∃ k : ℕ, plan.kubeNetworkNodePrefix = plan.kubePodsSubnet.prefixlen + k ∧
      plan.k8sCluster ≤ 2 ^ k := by
  obtain ⟨k, hk, hle⟩ := exists_exponent plan.k8sCluster_pos h
  exact ⟨k, by omega, hle⟩

/-- The addresses of a node are enough for its pods. -/
theorem EnoughForPods.nodePrefix (h : plan.EnoughForPods)
    (hassert : plan.ignoreAssertErrors = false)
    (hplugin : plan.kubeNetworkPlugin ≠ "calico") :
    ∃ k : ℕ, 32 - plan.kubeNetworkNodePrefix = k ∧ plan.kubeletMaxPods + 2 ≤ 2 ^ k := by
  have hle : ((plan.kubeletMaxPods + 2 : ℕ) : ℚ) ≤ 2 ^ (32 - plan.kubeNetworkNodePrefix) := by
    push_cast
    exact le_sub_iff_add_le.1 (h hassert hplugin)
  exact exists_exponent (Nat.le_add_left 1 _) hle

/-- The nodes get subnets of the network of the pods, one after another. -/
theorem hasNodeSubnets (hpods : plan.EnoughForPods) (hnodes : plan.EnoughForNodes)
    (hassert : plan.ignoreAssertErrors = false) (hplugin : plan.kubeNetworkPlugin ≠ "calico") :
    plan.HasNodeSubnets := by
  obtain ⟨k, hlength, hcount⟩ := hnodes.nodePrefix
  obtain ⟨bits, hbits, hroom⟩ := hpods.nodePrefix hassert hplugin
  have hlen : plan.kubePodsSubnet.prefixlen + k ≤ 32 := by omega
  have hcard : plan.k8sCluster ≤
      2 ^ (plan.kubePodsSubnet.prefixlen + k - plan.kubePodsSubnet.prefixlen) := by
    rwa [Nat.add_sub_cancel_left]
  let subnets (i : Fin plan.k8sCluster) : Network :=
    plan.kubePodsSubnet.subnet (Nat.le_add_right _ k) hlen (i.castLE hcard)
  have hsize : ∀ i, (subnets i).size = 2 ^ bits := fun i => by
    have hexp : 32 - (plan.kubePodsSubnet.prefixlen + k) = bits := by omega
    exact congrArg (2 ^ ·) hexp
  refine ⟨subnets, fun i j hij => ?_, fun i => ⟨?_, Cidr.subnet_subset _, ?_⟩⟩
  · exact Cidr.subnet_disjoint fun heq => hij (Fin.castLE_injective hcard heq)
  · rw [hlength]
    exact Nat.cast_add _ _
  · rw [Cidr.card_hosts, hsize]
    omega

end AddressPlan

/-- A plan that the assertions accept is usable iff the network of the services does not lie in the
one of the pods. -/
theorem accepted_usable_iff (plan : AddressPlan) (isNet : Network → Bool)
    (haccepted : plan.Accepted isNet) (hassert : plan.ignoreAssertErrors = false)
    (hplugin : plan.kubeNetworkPlugin ≠ "calico") :
    plan.Usable ↔ ¬ plan.kubeServiceAddresses ⊆ plan.kubePodsSubnet := by
  have hsubnets :=
      AddressPlan.hasNodeSubnets haccepted.enoughForPods haccepted.enoughForNodes hassert
    hplugin
  have hcollision := AddressPlan.noCollision_iff.1 haccepted.noCollision
  rw [AddressPlan.Usable, Cidr.disjoint_iff, and_iff_left hsubnets, and_iff_right hcollision]

/-- `10.233.0.0/18`. -/
def servicesNetwork : Network where
  network := 0x0ae90000
  prefixlen := 18
  prefixlen_le := by decide
  network_lt := by decide
  aligned := by decide

/-- The default networks, for three nodes. -/
def defaultPlan : AddressPlan where
  kubePodsSubnet :=
    { network := 0x0ae94000, prefixlen := 18, prefixlen_le := by decide, network_lt := by decide,
      aligned := by decide }
  kubeServiceAddresses := servicesNetwork
  kubeNetworkNodePrefix := 24
  kubeletMaxPods := 110
  kubeNetworkPlugin := "flannel"
  ignoreAssertErrors := false
  k8sCluster := 3
  kubeletMaxPods_pos := by decide
  k8sCluster_pos := by decide

/-- The default networks are accepted and usable. -/
theorem accepted_usable_default : defaultPlan.Usable :=
  (accepted_usable_iff defaultPlan (·.prefixlen < 32)
    ⟨by decide +kernel, rfl, rfl, by decide, by decide +kernel⟩ rfl (by decide)).2 (by decide)

/-- The same with `10.233.0.0/16` for the pods. -/
def widePlan : AddressPlan :=
  { defaultPlan with
    kubePodsSubnet :=
      { network := 0x0ae90000, prefixlen := 16, prefixlen_le := by decide, network_lt := by decide,
        aligned := by decide } }

/-- The address `10.233.0.1` is one of a pod and of a service. -/
theorem accepted_usable_fails : widePlan.Accepted (·.prefixlen < 32) ∧ ¬ widePlan.Usable := by
  refine ⟨⟨by decide +kernel, rfl, rfl, by decide, by decide +kernel⟩, fun husable => ?_⟩
  exact husable.1 0x0ae90001 (by decide) (by decide)

end Kubespray
