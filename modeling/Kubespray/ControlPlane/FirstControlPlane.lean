import Kubespray.Lib.Facts
import Mathlib.Data.Finset.Basic

/-!
# The first control plane host

`define-first-kube-control.yml` asks every control plane host for the nodes of the cluster, takes
the answer of the first host alone (`run_once`) and falls back to the first host of the group.
`first_joined_iff` says when the host chosen has already joined the cluster, and `kubeadm_init_iff`
when a host that has not runs `kubeadm init`; `first_joined_fails` puts a new host before the old
one. -/

universe u

namespace Kubespray

variable {α : Type u} [DecidableEq α]

/-! ## The tasks -/

/-- `Set fact joined_control_planes`, with what `kubectl get nodes` prints on each host on which it
succeeds. -/
def joinedControlPlanes (group : List α) (raw : α → Option (List α)) : HostFact α (List α) :=
  HostFact.setOnce group raw fun _ => none

/-- `Set fact first_kube_control_plane`, on the host `h`. -/
def firstKubeControlPlane (group : List α) (raw : α → Option (List α)) (h : α) : Option α :=
  (((joinedControlPlanes group raw h).getD []).head?).or group.head?

/-- The condition of `Initialize first master` on the host `h`. -/
def runsKubeadmInit (group : List α) (raw : α → Option (List α)) (alreadyRun : α → Bool) (h : α) :
    Bool :=
  firstKubeControlPlane group raw h == some h && !alreadyRun h

/-! ## A group of which some hosts have joined -/

/-- A control plane group, and the hosts of it that have joined a running cluster. -/
structure ControlPlane (α : Type u) [DecidableEq α] where
  /-- The first host of the group. -/
  first : α
  /-- The other hosts of the group. -/
  others : List α
  /-- The hosts that have joined. -/
  joined : Finset α
  /-- The control plane nodes of the cluster, in the order of `kubectl get nodes`. -/
  nodes : List α
  joined_group : ∀ h ∈ joined, h ∈ first :: others
  joined_nonempty : joined.Nonempty
  joined_nodes : ∀ h ∈ joined, h ∈ nodes
  /-- The other nodes are no hosts of the group. -/
  stale : ∀ h ∈ nodes, h ∉ joined → h ∉ first :: others

namespace ControlPlane

variable (c : ControlPlane α)

/-- The group `kube_control_plane`. -/
def group : List α := c.first :: c.others

/-- `kubectl get nodes` succeeds on the hosts that have joined. -/
def kubectlGetNodes (h : α) : Option (List α) := if h ∈ c.joined then some c.nodes else none

/-- `kubeadm_already_run` holds on the hosts that have joined. -/
def alreadyRun (h : α) : Bool := h ∈ c.joined

/-- `first_kube_control_plane` on the host `h`. -/
def firstOn (h : α) : Option α := firstKubeControlPlane c.group c.kubectlGetNodes h

/-- The host runs `kubeadm init`. -/
def initOn (h : α) : Bool := runsKubeadmInit c.group c.kubectlGetNodes c.alreadyRun h

variable {c} {h : α}

/-- The cluster has a control plane node. -/
theorem nodes_ne_nil (c : ControlPlane α) : c.nodes ≠ [] := by
  obtain ⟨h, hh⟩ := c.joined_nonempty
  exact List.ne_nil_of_mem (c.joined_nodes h hh)

/-- If the first host has joined, every host chooses the first node of the cluster. -/
theorem firstOn_of_joined (hfirst : c.first ∈ c.joined) (hh : h ∈ c.group) :
    c.firstOn h = c.nodes.head? := by
  obtain ⟨n, ns, hn⟩ := List.exists_cons_of_ne_nil c.nodes_ne_nil
  have hraw : c.group.head?.bind c.kubectlGetNodes = some c.nodes := if_pos hfirst
  rw [firstOn, firstKubeControlPlane, joinedControlPlanes, HostFact.setOnce, hraw]
  change (((HostFact.setOn c.group c.nodes _ h).getD []).head?).or _ = _
  rw [HostFact.setOn_of_mem hh, hn]
  rfl

/-- If it has not, every host chooses the first host of the group. -/
theorem firstOn_of_not_joined (hfirst : c.first ∉ c.joined) (h : α) :
    c.firstOn h = some c.first := by
  have hraw : c.group.head?.bind c.kubectlGetNodes = none := if_neg hfirst
  rw [firstOn, firstKubeControlPlane, joinedControlPlanes, HostFact.setOnce, hraw]
  rfl

/-- A host runs `kubeadm init` if it is chosen and has not joined. -/
theorem initOn_iff : c.initOn h = true ↔ c.firstOn h = some h ∧ h ∉ c.joined := by
  simp [initOn, runsKubeadmInit, firstOn, alreadyRun]

end ControlPlane

/-- All hosts of the group agree on a first control plane that has joined, and none but hosts that
have joined can run `kubeadm init`, iff the first host of the group and the first node of the
cluster have joined. -/
theorem first_joined_iff (c : ControlPlane α) :
    (∃ f ∈ c.joined, (∀ h ∈ c.group, c.firstOn h = some f) ∧
        ∀ h ∈ c.group, c.initOn h = true → h ∈ c.joined) ↔
      c.first ∈ c.joined ∧ ∀ n ∈ c.nodes.head?, n ∈ c.joined := by
  constructor
  · rintro ⟨f, hf, hall, -⟩
    have hchosen : c.firstOn c.first = some f := hall c.first List.mem_cons_self
    by_cases hfirst : c.first ∈ c.joined
    · rw [ControlPlane.firstOn_of_joined hfirst List.mem_cons_self] at hchosen
      refine ⟨hfirst, fun n hn => ?_⟩
      rw [hchosen] at hn
      exact Option.some.inj hn ▸ hf
    · rw [ControlPlane.firstOn_of_not_joined hfirst] at hchosen
      exact absurd (Option.some.inj hchosen ▸ hf) hfirst
  · rintro ⟨hfirst, hnode⟩
    obtain ⟨n, ns, hn⟩ := List.exists_cons_of_ne_nil c.nodes_ne_nil
    have hchosen : ∀ h ∈ c.group, c.firstOn h = some n := fun h hh => by
      rw [ControlPlane.firstOn_of_joined hfirst hh, hn, List.head?_cons]
    have hjoined : n ∈ c.joined := hnode n (by rw [hn]; rfl)
    refine ⟨n, hjoined, hchosen, fun h hh hinit => ?_⟩
    have heq := (ControlPlane.initOn_iff.1 hinit).1
    rw [hchosen h hh] at heq
    exact Option.some.inj heq ▸ hjoined

/-- A host that has not joined runs `kubeadm init` iff the first host of the group has not joined;
it is that host. -/
theorem kubeadm_init_iff (c : ControlPlane α) {h : α} (hh : h ∈ c.group) :
    c.initOn h = true ↔ c.first ∉ c.joined ∧ h = c.first := by
  rw [ControlPlane.initOn_iff]
  by_cases hfirst : c.first ∈ c.joined
  · refine iff_of_false (fun hinit => ?_) (fun hnot => hnot.1 hfirst)
    obtain ⟨heq, hnot⟩ := hinit
    rw [ControlPlane.firstOn_of_joined hfirst hh] at heq
    -- the node chosen would be a stale one, but these are not in the group
    exact c.stale h (List.mem_of_mem_head? heq) hnot hh
  · rw [ControlPlane.firstOn_of_not_joined hfirst, Option.some.injEq]
    exact ⟨fun hinit => ⟨hfirst, hinit.1.symm⟩, fun hinit => ⟨hinit.2.symm, hinit.2 ▸ hfirst⟩⟩

/-- A group of two hosts, of which the second runs the cluster. -/
def newBeforeOld : ControlPlane String where
  first := "new"
  others := ["old"]
  joined := {"old"}
  nodes := ["old"]
  joined_group := by decide
  joined_nonempty := by decide
  joined_nodes := by decide
  stale := by decide

/-- The new host initialises a second cluster. -/
theorem first_joined_fails :
    newBeforeOld.firstOn "old" = some "new" ∧ newBeforeOld.initOn "new" = true ∧
      "new" ∉ newBeforeOld.joined := by
  decide

end Kubespray
