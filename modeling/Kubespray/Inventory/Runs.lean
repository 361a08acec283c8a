import Kubespray.Inventory.AddForms
import Kubespray.Inventory.Placement

/-!
# Runs over one file

What a run does to a file of the builder. `builds` is the host list that a run computes and the
configuration it starts from; a run that returns writes `Inventory.place` of the two
(`run_place`). From this, every file that runs reach from no file holds a well-formed inventory
(`reachable_holds`).
-/

namespace Kubespray

open Py

/-! ## Reading an inventory -/

/-- The entries of `all.hosts`. -/
def hostsOf (yamlConfig : Value) : List (String × Value) :=
  match yamlConfig.getPath ["all", "hosts"] with
  | .ok (.dict kvs) => kvs
  | _ => []

/-- The names of the hosts. -/
def hostNames (yamlConfig : Value) : List String := Assoc.keys (hostsOf yamlConfig)

/-- The hosts of a group. -/
def members (yamlConfig : Value) (group : String) : List String :=
  match yamlConfig.getPath ["all", "children", group, "hosts"] with
  | .ok (.dict kvs) => Assoc.keys kvs
  | _ => []

section
variable {inv : Inventory}

@[simp] theorem hostsOf_toValue : hostsOf inv.toValue = inv.hosts.items := rfl
@[simp] theorem hostNames_toValue : hostNames inv.toValue = inv.hosts.keys := rfl

theorem members_toValue (r : Role) : members inv.toValue r.name = (inv.group r).keys := by
  rw [members, getPath_group]
  rfl

@[simp] theorem members_kubeControlPlane :
    members inv.toValue "kube_control_plane" = (inv.group .kubeControlPlane).keys :=
  members_toValue .kubeControlPlane
@[simp] theorem members_kubeNode :
    members inv.toValue "kube_node" = (inv.group .kubeNode).keys := members_toValue .kubeNode
@[simp] theorem members_etcd :
    members inv.toValue "etcd" = (inv.group .etcd).keys := members_toValue .etcd
@[simp] theorem members_calicoRr :
    members inv.toValue "calico_rr" = (inv.group .calicoRr).keys := members_toValue .calicoRr

/-- The other groups of a well-formed inventory have no hosts of their own. -/
theorem members_toValue_of_ne (hw : inv.WellFormed) {group : String}
    (h : ∀ r : Role, r.name ≠ group) :
    members inv.toValue group = [] := by
  by_cases hk : group = "k8s_cluster"
  · subst hk
    have hg : inv.toValue.getPath ["all", "children", "k8s_cluster", "hosts"] =
        inv.k8sCluster.getItem "hosts" := by
      rw [← bind_pure (inv.k8sCluster.getItem "hosts")]
      rfl
    rw [members, hg]
    rcases hw.k8sCluster with hk | hk <;> rw [hk] <;> rfl
  · have hcp := h .kubeControlPlane
    have hkn := h .kubeNode
    have het := h .etcd
    have hrr := h .calicoRr
    have hl :
        inv.toValue.getPath ["all", "children", group, "hosts"] = .error (.keyError group) := by
      simp only [Role.name] at hcp hkn het hrr
      simp [Inventory.toValue, Assoc.lookup_cons, hcp, hkn, het, hrr, Ne.symm hk]
    rw [members, hl]

end

/-! ## The host list of a run -/

/-- Whether the arguments are those of a run that builds an inventory: with `add` or not, and the
arguments that change the hosts. -/
def inventoryArgs : List String → Option (Bool × List String)
  | [] => some (false, [])
  | command :: args =>
    if command ∉ availableCommands then some (false, command :: args)
    else if command = "add" then some (true, args)
    else none

/-- The configuration that a run starts from and the host list that it builds. -/
def builds (env : Env) (argv : List String) (file : ConfigFile) :
    Except Exc (Value × OrdDict String Value) :=
  match inventoryArgs argv with
  | some (add, args) => built env add args file
  | none => .error (.systemExit 0)

section
variable {env : Env} {argv args : List String} {file file' : ConfigFile} {add : Bool}

/-- The end of a run that builds an inventory. -/
theorem exec_writeUpdated :
    (writeUpdated env add args).exec file =
      match updated env add args file with
      | .ok w => (.ok (), .yaml w)
      | .error e => (.error e, file) := by
  show Script.exec (do
    let yamlConfig ← liftExcept (updated env add args file)
    set (ConfigFile.yaml yamlConfig)) file = _
  cases updated env add args file <;> rfl

/-- A sequence does not return if its second part never does. -/
theorem exec_bind_ne_ok {α : Type} {m : Script α} {f : α → Script Unit}
    (hf : ∀ a file, (f a).exec file ≠ (.ok (), file')) :
      Script.exec (m >>= f) file ≠ (.ok (), file') := by
  rw [Script.exec_bind]
  rcases m.exec file with ⟨r, file₁⟩
  cases r with
  | error e => exact fun h => nomatch (Prod.mk.inj h).1
  | ok a => exact hf a file₁

/-- `sys.exit` does not return. -/
theorem exec_throw_ne_ok {e : Exc} : (throw e : Script Unit).exec file ≠ (.ok (), file') :=
  fun h => nomatch (Prod.mk.inj h).1

/-- A run that returns is one that builds an inventory and writes it. -/
theorem run_eq_ok_iff_updated :
    run env argv file = (.ok (), file') ↔
      ∃ add args w, inventoryArgs argv = some (add, args) ∧ updated env add args file = .ok w ∧
        file' = .yaml w := by
  have hw : ∀ add args, (writeUpdated env add args).exec file = (.ok (), file') ↔
      ∃ w, updated env add args file = .ok w ∧ file' = .yaml w := by
    intro add args
    rw [exec_writeUpdated]
    cases updated env add args file with
    | error e => simp
    | ok w => simp [eq_comm]
  cases argv with
  | nil =>
    rw [run, kubesprayInventory, hw]
    simp [inventoryArgs]
  | cons command args =>
    by_cases hc : command ∉ availableCommands
    · simp only [run, kubesprayInventory, inventoryArgs, if_pos hc, hw]
      simp
    · by_cases hadd : command = "add"
      · simp only [run, kubesprayInventory, inventoryArgs, if_neg hc, if_pos hadd, hw]
        simp
      · simp only [run, kubesprayInventory, inventoryArgs, if_neg hc, if_neg hadd]
        -- every other command ends in `sys.exit(0)`
        have hne : ∀ m : Script Unit, m.exec file ≠ (.ok (), file') →
            (m.exec file = (.ok (), file') ↔
              ∃ add args w, (none : Option (Bool × List String)) = some (add, args) ∧
                updated env add args file = .ok w ∧ file' = .yaml w) := by
          intro m hm
          simp [hm]
        refine hne _ ?_
        split
        · exact exec_bind_ne_ok fun _ _ => exec_bind_ne_ok fun _ _ =>
            exec_bind_ne_ok fun _ _ => exec_throw_ne_ok
        · exact exec_bind_ne_ok fun _ _ => exec_throw_ne_ok

/-- A run that returns runs the passes on what `builds` gives, and writes the result. -/
theorem run_eq_ok :
    run env argv file = (.ok (), file') ↔
      ∃ start hosts w, builds env argv file = .ok (start, hosts) ∧
        setGroups env hosts start = .ok w ∧ file' = .yaml w := by
  rw [run_eq_ok_iff_updated, builds]
  cases inventoryArgs argv with
  | none => simp
  | some p =>
    obtain ⟨add, args⟩ := p
    simp only [Option.some.injEq, Prod.mk.injEq, updated, bind_eq_ok, Prod.exists]
    constructor
    · rintro ⟨_, _, w, ⟨rfl, rfl⟩, ⟨start, hosts, hb, hs⟩, hf⟩
      exact ⟨start, hosts, w, hb, hs, hf⟩
    · rintro ⟨start, hosts, w, hb, hs, hf⟩
      exact ⟨add, args, w, ⟨rfl, rfl⟩, ⟨start, hosts, hb, hs⟩, hf⟩

end

/-! ## Runs over a file of the builder -/

/-- The file holds an inventory of the builder; before the first run this is the fresh one. -/
inductive Holds : ConfigFile → Inventory → Prop
  | absent : Holds .absent .fresh
  | yaml (inv : Inventory) : Holds (.yaml inv.toValue) inv

/-- The inventory that a run starts from: the loaded one or a fresh one. -/
def Inventory.base (inv : Inventory) (load : Bool) : Inventory := if load then inv else .fresh

section
variable {env : Env} {argv args : List String} {file file' : ConfigFile} {add load : Bool}
  {inv : Inventory} {start cfg : Value} {hosts : OrdDict String Value}

/-- The configuration that a run starts from. -/
theorem startConfig_eq_ok (hf : Holds file inv) (h : startConfig load file = .ok start) :
    start = (inv.base load).toValue := by
  cases load with
  | false =>
    cases h
    rfl
  | true =>
    cases hf with
    | absent => cases h
    | yaml inv =>
      have h' : ensureRequiredGroups roles inv.toValue = .ok start := h
      rw [ensureRequiredGroups_toValue] at h'
      cases h'
      rfl

/-- The loop of `build_hostnames` starts with the hosts of the inventory that the run starts from
and the id above the highest of their ids. -/
theorem initialLocals_base {s : Locals} :
    initialLocals env load (inv.base load).toValue = .ok s ↔
      ∃ highest, highestHostId env (inv.base load).hosts.keys = .ok highest ∧
        s = { allHosts := (inv.base load).hosts, nextHostId := highest + 1 } := by
  cases load with
  | true => exact initialLocals_eq_ok (getPath_hosts inv)
  | false =>
    rw [initialLocals_false]
    constructor
    · intro h
      cases h
      exact ⟨0, rfl, rfl⟩
    · rintro ⟨highest, hh, rfl⟩
      cases hh
      rfl

/-- Without arguments no host list is built. -/
theorem ne_nil_of_built {r : Value × OrdDict String Value} (h : built env add args file = .ok r) :
    args ≠ [] := by
  rintro rfl
  simp only [built, bind_eq_ok] at h
  obtain ⟨load, -, cfg, -, h⟩ := h
  cases h

/-- How a run builds its host list. -/
theorem built_eq_ok (hf : Holds file inv) (h : built env add args file = .ok (start, hosts)) :
    ∃ load changed highest s', loadPreviousConfig add args = .ok load ∧
      start = (inv.base load).toValue ∧ range2ips env args = .ok changed ∧
      highestHostId env (inv.base load).hosts.keys = .ok highest ∧
      changed.foldlM (argument env)
        { allHosts := (inv.base load).hosts, nextHostId := highest + 1 } = .ok s' ∧
      hosts = s'.allHosts := by
  simp only [built, bind_eq_ok] at h
  obtain ⟨load, hload, cfg, hcfg, h⟩ := h
  split at h
  · cases h
  · simp only [bind_eq_ok] at h
    obtain ⟨changed, hr, hosts', hb, h⟩ := h
    cases h
    have hstart := startConfig_eq_ok hf hcfg
    obtain ⟨s, s', hs, hl, hh⟩ := buildHostnames_eq_ok.1 hb
    rw [hstart] at hs
    obtain ⟨highest, hhigh, rfl⟩ := initialLocals_base.1 hs
    exact ⟨load, changed, highest, s', hload, hstart, hr, hhigh, hl, hh⟩

/-- `hosts` is what the loop of `build_hostnames` makes of the hosts of `base`. -/
def BuiltFrom (env : Env) (base : Inventory) (hosts : OrdDict String Value) : Prop :=
  ∃ (changed : List String) (highest : Nat) (s' : Locals), changed.foldlM (argument env)
    { allHosts := base.hosts, nextHostId := highest + 1 } = .ok s' ∧ hosts = s'.allHosts

/-- The options in the host list are as good as those of the inventory it is built from. -/
theorem BuiltFrom.opts (h : BuiltFrom env inv hosts)
    (ho : ∀ p ∈ inv.hosts.items, ∃ accessIp ip, p.2 = hostOpts accessIp ip) :
    ∀ p ∈ hosts.items, ∃ accessIp ip, p.2 = hostOpts accessIp ip := by
  obtain ⟨changed, highest, s', hloop, rfl⟩ := h
  exact loop_forall_opts (P := fun opts => ∃ accessIp ip, opts = hostOpts accessIp ip)
    (fun accessIp ip => ⟨accessIp, ip, rfl⟩) ho hloop

/-- So are the ips. -/
theorem BuiltFrom.ipsDistinct (h : BuiltFrom env inv hosts) (hd : IpsDistinct inv.hosts) :
    IpsDistinct hosts := by
  obtain ⟨changed, highest, s', hloop, rfl⟩ := h
  exact loop_ipsDistinct (s := { allHosts := inv.hosts, nextHostId := highest + 1 }) hd hloop

/-- The inventory a run starts from is the loaded one or a fresh one. -/
theorem builds_base (hf : Holds file inv) (h : builds env argv file = .ok (start, hosts)) :
    ∃ base, (base = inv ∨ base = .fresh) ∧ start = base.toValue ∧ BuiltFrom env base hosts := by
  unfold builds at h
  split at h
  · next add args _ =>
    obtain ⟨load, changed, highest, s', -, hstart, -, -, hloop, hhosts⟩ := built_eq_ok hf h
    refine ⟨inv.base load, ?_, hstart, changed, highest, s', hloop, hhosts⟩
    cases load with
    | true => exact .inl rfl
    | false => exact .inr rfl
  · cases h

/-- A run that builds a host list from an inventory writes its placement. -/
theorem run_of_builds {base : Inventory} (h : builds env argv file = .ok (base.toValue, hosts)) :
    run env argv file = (.ok (), .yaml (base.place env hosts).toValue) :=
  run_eq_ok.2 ⟨_, _, _, h, setGroups_toValue base, rfl⟩

/-- A run that returns writes the placement of the host list that it builds. -/
theorem run_place (hf : Holds file inv) (h : run env argv file = (.ok (), file')) :
    ∃ base hosts, (base = inv ∨ base = .fresh) ∧ builds env argv file = .ok (base.toValue, hosts) ∧
      file' = .yaml (base.place env hosts).toValue ∧ BuiltFrom env base hosts := by
  obtain ⟨start, hosts, w, hb, hs, hfile⟩ := run_eq_ok.1 h
  obtain ⟨base, hbase, rfl, hbuilt⟩ := builds_base hf hb
  rw [setGroups_toValue] at hs
  cases hs
  exact ⟨base, hosts, hbase, hb, hfile, hbuilt⟩

/-- What a reachable file holds. -/
def HoldsWellFormed (file : ConfigFile) : Prop := ∃ inv, Holds file inv ∧ inv.WellFormed

/-- Every file that runs reach holds a well-formed inventory. -/
theorem reachable_holds (h : (builder env).Reachable file) : HoldsWellFormed file := by
  refine h.invariant ?_ ?_
  · rintro file rfl
    exact ⟨.fresh, .absent, Inventory.fresh_wellFormed⟩
  · rintro file argv file' - ⟨inv, hf, hw⟩ hstep
    obtain ⟨base, hosts, hbase, -, rfl, hbuilt⟩ := run_place hf hstep
    have hwb : base.WellFormed := by
      rcases hbase with rfl | rfl
      · exact hw
      · exact Inventory.fresh_wellFormed
    exact ⟨_, .yaml _, hwb.place (hbuilt.opts hwb.opts)⟩

/-- The document in the file after a sequence of runs that all return, from no file. -/
def history (env : Env) (argvs : List (List String)) : Option Value :=
  let file? := argvs.foldlM (fun file argv =>
    match run env argv file with
    | (.ok (), file') => some file'
    | _ => none) ConfigFile.absent
  match file? with
  | some (.yaml cfg) => some cfg
  | _ => none

/-- Such a document is reachable. -/
theorem reachable_of_history {argvs : List (List String)} (h : history env argvs = some cfg) :
    (builder env).Reachable (.yaml cfg) := by
  have key : ∀ (argvs : List (List String)) (file file' : ConfigFile),
      (builder env).Reachable file →
      argvs.foldlM (fun file argv =>
        match run env argv file with
        | (.ok (), file') => some file'
        | _ => none) file = some file' →
      (builder env).Reachable file' := by
    intro argvs
    induction argvs with
    | nil =>
      intro file file' hr hf
      cases hf
      exact hr
    | cons argv argvs ih =>
      intro file file' hr hf
      rw [List.foldlM_cons, Option.bind_eq_bind, Option.bind_eq_some_iff] at hf
      obtain ⟨file₁, hs, hf⟩ := hf
      split at hs
      · next file₂ hrun =>
        cases hs
        exact ih _ _ (.step hr hrun) hf
      · cases hs
  simp only [history] at h
  split at h
  · next cfg' hf =>
    cases h
    exact key argvs _ _ (.init rfl) hf
  · cases h

/-- The runs that start from a configuration and build a host list that meet `B`. -/
def RunMeets (env : Env) (B : Value → OrdDict String Value → Prop) (file : ConfigFile)
    (argv : List String) : Prop :=
  ∀ start hosts, builds env argv file = .ok (start, hosts) → B start hosts

/-- What the fresh inventory has, and every run that meets `B` keeps, all inventories have that
such runs reach. A step may use that the inventory it starts from is well formed, and that its host
list is built from this inventory. -/
theorem guarded_invariant {B : Value → OrdDict String Value → Prop} {P : Inventory → Prop}
    (hfresh : P .fresh)
    (hstep : ∀ base hosts, base.WellFormed → P base → B base.toValue hosts →
      BuiltFrom env base hosts → P (base.place env hosts))
    (h : ((builder env).guard (RunMeets env B)).Reachable (.yaml cfg)) :
    ∃ inv, cfg = inv.toValue ∧ inv.WellFormed ∧ P inv := by
  have hall : ∀ file, ((builder env).guard (RunMeets env B)).Reachable file →
      ∃ inv, Holds file inv ∧ inv.WellFormed ∧ P inv := by
    intro file hr
    induction hr with
    | init hi =>
      cases hi
      exact ⟨.fresh, .absent, Inventory.fresh_wellFormed, hfresh⟩
    | step _ hst ih =>
      obtain ⟨inv, hf, hw, hp⟩ := ih
      obtain ⟨hB, hrun⟩ := hst
      obtain ⟨base, hosts, hbase, hb, rfl, hbuilt⟩ := run_place hf hrun
      have hwp : base.WellFormed ∧ P base := by
        rcases hbase with rfl | rfl
        · exact ⟨hw, hp⟩
        · exact ⟨Inventory.fresh_wellFormed, hfresh⟩
      exact ⟨_, .yaml _, hwp.1.place (hbuilt.opts hwp.1.opts),
        hstep base hosts hwp.1 hwp.2 (hB _ _ hb) hbuilt⟩
  obtain ⟨inv, hf, hw, hp⟩ := hall _ h
  cases hf
  exact ⟨inv, rfl, hw, hp⟩

/-- What the fresh inventory has, and every run keeps, all reachable inventories have. -/
theorem reachable_invariant {P : Inventory → Prop} (hfresh : P .fresh)
    (hstep : ∀ base hosts, base.WellFormed → P base → BuiltFrom env base hosts →
      P (base.place env hosts))
    (h : (builder env).Reachable (.yaml cfg)) : ∃ inv, cfg = inv.toValue ∧ inv.WellFormed ∧ P inv :=
  guarded_invariant (B := fun _ _ => True) hfresh
    (fun base hosts hw hp _ hbuilt => hstep base hosts hw hp hbuilt)
    (h.guard fun _ _ _ _ _ => trivial)

end

end Kubespray
