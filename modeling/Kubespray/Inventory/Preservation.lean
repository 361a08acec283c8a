import Kubespray.Inventory.Deletion
import Kubespray.Inventory.Frame

/-!
# The hosts that a deletion keeps

A run whose first argument is a deletion loads the file, and keeps every host that no deletion hits
and whose name no other argument gives away (`mem_hostsOf_of_loaded`). A run whose first argument is
something else does not load the file, whatever arguments follow, so it keeps no host
(`exists_lost`). `deletion_keeps` puts the two together.
-/

namespace Kubespray

open Py

/-- No deletion hits the host, by its name or by its ip, and no argument gives its name. -/
structure Spared (env : Env) (args : List String) (p : String × Value) : Prop where
  notDeleted : ∀ arg ∈ args, IsDeletion arg → tail arg ≠ p.1 ∧ hasIp p.2 (tail arg) = false
  notNamed : ∀ arg ∈ args, ¬ Names env arg p.1

/-- Going through the arguments with the hosts of `cfg`, an address is stored under `name`. -/
def TakenByAddress (env : Env) (args : List String) (cfg : Value) (name : String) : Prop :=
  ∃ pre host post s ip accessIp id, range2ips env args = .ok (pre ++ host :: post) ∧
    changedLocals env pre true cfg = .ok s ∧ host.toList.head?.any env.chars.isdigit = true ∧
    ipParts host = .ok (ip, accessIp) ∧ host ∉ s.allHosts.keys ∧ carriesIp s.allHosts ip = false ∧
    nextHost env s.nextHostId accessIp = .ok (name, id)

section
variable {env : Env} {args : List String} {cfg cfg' : Value} {hosts : OrdDict String Value}
  {p : String × Value}

/-! ## Runs that load the file -/

/-- An argument keeps a host that it does not hit and whose name it does not give. -/
theorem Change.mem_items {s s' : Locals} {host : String} (h : Change env s host s')
    (hp : p ∈ s.allHosts.items)
    (hdel : IsDeletion host → tail host ≠ p.1 ∧ hasIp p.2 (tail host) = false)
    (hgen : ∀ ip accessIp id, host.toList.head?.any env.chars.isdigit = true →
      ipParts host = .ok (ip, accessIp) → host ∉ s.allHosts.keys →
      carriesIp s.allHosts ip = false → nextHost env s.nextHostId accessIp ≠ .ok (p.1, id))
    (hname : s'.hostname ≠ some p.1) : p ∈ s'.allHosts.items := by
  cases h with
  | kept hosts _ => rwa [hosts]
  | deleted name hd target hosts _ =>
    rw [hosts, OrdDict.items_erase]
    have hne : name ≠ p.1 := by
      rintro rfl
      obtain ⟨hnot, hip⟩ := hdel hd
      rcases target with he | ⟨opts, hm, hi⟩
      · exact hnot he.symm
      · have he : opts = p.2 := Assoc.eq_of_mem s.allHosts.nodup hm hp
        rw [he, hip] at hi
        cases hi
    exact Assoc.mem_erase_of_ne hne hp
  | generated name ip accessIp digit parts unnamed new next hosts =>
    rw [hosts, OrdDict.items_insert]
    have hne : name ≠ p.1 := fun he => hgen ip accessIp _ digit parts unnamed new (he ▸ next)
    exact Assoc.mem_insert_of_ne hne hp
  | named name ip accessIp _ hostname hosts _ =>
    rw [hosts, OrdDict.items_insert]
    have hne : name ≠ p.1 := fun he => hname (he ▸ hostname)
    exact Assoc.mem_insert_of_ne hne hp

/-- Going through the arguments keeps a host that none of them hits or takes the name of. -/
theorem loop_mem_items {changed : List String} {s s' : Locals}
    (hrange : range2ips env args = .ok changed)
    (hloaded : initialLocals env true cfg = .ok s) (hstart : s.hostname = none)
    (hp : p ∈ s.allHosts.items) (hspared : Spared env args p)
    (htaken : ¬ TakenByAddress env args cfg p.1)
    (hloop : changed.foldlM (argument env) s = .ok s') : p ∈ s'.allHosts.items := by
  -- besides the host, the invariant has where the variable `hostname` comes from
  let Inv (_ : List String) (s : Locals) : Prop := p ∈ s.allHosts.items ∧
    ∀ name, s.hostname = some name → ∃ arg ∈ args, Names env arg name
  have hinv : Inv changed s' := by
    refine foldlM_invariant_split ?_ ⟨hp, fun name hn => by rw [hstart] at hn; cases hn⟩ hloop
    rintro pre host post s₁ s₂ hsplit hpre ⟨hp₁, hname₁⟩ hstep
    have hm : host ∈ changed := by
      rw [hsplit]
      exact List.mem_append_right _ (.head _)
    have horigin := mem_of_mem_range2ips hrange hm
    obtain ⟨hch, hhostname⟩ := argument_change hstep
    have hname₂ : ∀ name, s₂.hostname = some name → ∃ arg ∈ args, Names env arg name := by
      intro name hn
      rcases hhostname with he | ⟨name', hn', hnames⟩
      · exact hname₁ name (he ▸ hn)
      · rw [hn] at hn'
        cases hn'
        refine ⟨host, horigin.resolve_right fun h => h.1 hnames.2.1, hnames⟩
    refine ⟨hch.mem_items hp₁ (fun hd => ?_) (fun ip accessIp id digit parts unnamed new next => ?_)
      fun hn => ?_, hname₂⟩
    · exact hspared.notDeleted host (horigin.resolve_right fun h => h.2 hd) hd
    · refine htaken ⟨pre, host, post, s₁, ip, accessIp, id, hsplit ▸ hrange, ?_, digit, parts,
        unnamed, new, next⟩
      rw [changedLocals, hloaded]
      exact hpre
    · obtain ⟨arg, ha, hnames⟩ := hname₂ _ hn
      exact hspared.notNamed arg ha hnames
  exact hinv.1

/-- A run whose first argument is a deletion keeps the hosts that are spared. -/
theorem mem_hostsOf_of_loaded {first : String} {rest : List String} (hargs : args = first :: rest)
    (hfirst : IsDeletion first) (hhosts : cfg.getPath ["all", "hosts"] = .ok (.dict hosts.items))
    (hrun : run env args (.yaml cfg) = (.ok (), .yaml cfg')) (hp : p ∈ hosts.items)
    (hspared : Spared env args p) (htaken : ¬ TakenByAddress env args cfg p.1) :
    p ∈ hostsOf cfg' := by
  obtain ⟨start, hosts', w, hb, hs, hfile⟩ := run_eq_ok.1 hrun
  cases hfile
  have hb' : built env false args (.yaml cfg) = .ok (start, hosts') := by
    rw [builds, hargs, inventoryArgs, if_pos (not_command_of_deletion hfirst)] at hb
    rw [hargs]
    exact hb
  have hload : loadPreviousConfig false args = .ok true := by
    rw [hargs]
    exact loadPreviousConfig_of_deletion hfirst
  simp only [built, hload, ok_bind, bind_eq_ok] at hb'
  obtain ⟨cfg₁, hcfg₁, hb'⟩ := hb'
  have hhosts₁ : cfg₁.getPath ["all", "hosts"] = .ok (.dict hosts.items) :=
    ensureRequiredGroups_hosts hhosts hcfg₁
  split at hb'
  · cases hb'
  · simp only [bind_eq_ok] at hb'
    obtain ⟨changed, hrange, hosts₁, hbuild, he⟩ := hb'
    cases he
    obtain ⟨s, s', hs₀, hloop, rfl⟩ := buildHostnames_eq_ok.1 hbuild
    obtain ⟨highest, hh, rfl⟩ := (initialLocals_eq_ok hhosts₁).1 hs₀
    have hs₁ := (initialLocals_eq_ok hhosts).2 ⟨highest, hh, rfl⟩
    exact mem_hostsOf_of_setGroups hs p
      (loop_mem_items hrange hs₁ rfl hp hspared htaken hloop)

/-! ## Runs that do not load the file -/

/-- There is a text that is not in a list and does not end in a digit. -/
theorem exists_fresh (texts : List String) : ∃ s, s ∉ texts ∧ s.toList.getLast? = some 'z' := by
  obtain ⟨n, hn⟩ : ∃ n, ∀ t ∈ texts, t.toList.length ≤ n := by
    induction texts with
    | nil => exact ⟨0, fun _ h => absurd h List.not_mem_nil⟩
    | cons t texts ih =>
      obtain ⟨n, hn⟩ := ih
      refine ⟨max n t.toList.length, fun u hu => ?_⟩
      rcases List.mem_cons.1 hu with rfl | hu
      · exact Nat.le_max_right _ _
      · exact Nat.le_trans (hn u hu) (Nat.le_max_left _ _)
  refine ⟨String.ofList (List.replicate (n + 1) 'z'), fun hm => ?_, ?_⟩
  · have hlen := hn _ hm
    rw [String.toList_ofList, List.length_replicate] at hlen
    omega
  · simp [List.getLast?_replicate]

/-- The names that the arguments could give: those in `name,...` and those that `ssh` reports. -/
def givenNames (env : Env) (args changed : List String) : List String :=
  args.filterMap (fun arg => (split ',' arg).head?) ++
    changed.filterMap fun host =>
      match ipParts host with
      | .ok (_, accessIp) => (env.realHostname accessIp).toOption
      | .error _ => none

/-- A run whose first argument is no deletion starts from nothing, whatever the file holds. -/
theorem run_of_not_deletion {first : String} {rest : List String} {file file₁ file' : ConfigFile}
    (hcmd : first ∉ availableCommands) (hfirst : ¬ IsDeletion first)
    (h : run env (first :: rest) file = (.ok (), file')) :
    run env (first :: rest) file₁ = (.ok (), file') := by
  have hload : loadPreviousConfig false (first :: rest) ≠ .ok true := by
    intro hl
    unfold loadPreviousConfig at hl
    cases hc : first.toList with
    | nil => simp [hc] at hl
    | cons c cs =>
      simp only [hc, Bool.false_or, Except.ok.injEq, beq_iff_eq] at hl
      exact hfirst (by rw [IsDeletion, hc, hl]; rfl)
  have hb : builds env (first :: rest) file₁ = builds env (first :: rest) file := by
    simp only [builds, inventoryArgs, if_pos hcmd, built]
    cases hl : loadPreviousConfig false (first :: rest) with
    | error e => rfl
    | ok load =>
      cases load with
      | true => exact absurd hl hload
      | false => rfl
  obtain ⟨start, hosts, w, hbuilt, hrest⟩ := run_eq_ok.1 h
  exact run_eq_ok.2 ⟨start, hosts, w, hb ▸ hbuilt, hrest⟩

/-- A file with one host. -/
def oneHost (name : String) : Value :=
  .dict [("all", .dict [("hosts", .dict [(name, hostOpts name name)])])]

/-- A run whose first argument is no deletion loses a host that no argument is about. -/
theorem exists_lost {first : String} {rest : List String} {file file' : ConfigFile}
    (hcmd : first ∉ availableCommands) (hfirst : ¬ IsDeletion first)
    (h : run env (first :: rest) file = (.ok (), file')) :
    ∃ name cfg', run env (first :: rest) (.yaml (oneHost name)) = (.ok (), .yaml cfg') ∧
      Spared env (first :: rest) (name, hostOpts name name) ∧
      ¬ TakenByAddress env (first :: rest) (oneHost name) name ∧
      (name, hostOpts name name) ∉ hostsOf cfg' := by
  obtain ⟨start, hosts, w, hb, hs, rfl⟩ := run_eq_ok.1 h
  -- the texts that the host must not be confused with
  obtain ⟨name, hfresh, hlast⟩ := exists_fresh
    ((first :: rest).map tail ++ givenNames env (first :: rest)
      ((range2ips env (first :: rest)).toOption.getD []) ++ hostNames w)
  simp only [List.mem_append, not_or] at hfresh
  obtain ⟨⟨htail, hgiven⟩, hw⟩ := hfresh
  simp only [givenNames, List.mem_append, not_or, List.mem_filterMap, not_exists, not_and] at hgiven
  refine ⟨name, w, run_of_not_deletion hcmd hfirst h, ⟨fun arg ha _ => ?_, fun arg ha hn => ?_⟩, ?_,
    fun hm => hw (Assoc.mem_keys_of_mem hm)⟩
  · have hne : tail arg ≠ name := fun he => htail (he ▸ List.mem_map_of_mem ha)
    exact ⟨hne, by rw [hasIp_hostOpts]; simpa using hne.symm⟩
  · exact hgiven.1 arg ha hn.2.2
  · rintro ⟨pre, host, post, s, ip, accessIp, id, hrange, -, -, hparts, -, -, hnext⟩
    unfold nextHost at hnext
    split at hnext
    · -- the name that `ssh` reports
      rw [bind_eq_ok] at hnext
      obtain ⟨real, hreal, hnext⟩ := hnext
      cases hnext
      refine hgiven.2 host ?_ ?_
      · rw [hrange]
        exact List.mem_append_right _ (.head _)
      · rw [hparts]
        simp [hreal, Except.toOption]
    · cases hnext
      exact generatedName_getLast_ne (by decide : 'z'.isDigit = false) hlast

/-- With generated names and a prefix without a dot, no address takes the name of a loaded host. -/
theorem not_takenByAddress {name : String} (hreal : env.useRealHostname = false)
    (hdot : '.' ∉ env.hostPrefix.toList)
    (hhosts : cfg.getPath ["all", "hosts"] = .ok (.dict hosts.items)) (hm : name ∈ hosts.keys) :
    ¬ TakenByAddress env args cfg name := by
  rintro ⟨pre, host, post, s, ip, accessIp, id, -, hloop, -, -, -, -, hnext⟩
  rw [changedLocals, bind_eq_ok] at hloop
  obtain ⟨s₀, hs₀, hloop⟩ := hloop
  obtain ⟨highest, hh, rfl⟩ := (initialLocals_eq_ok hhosts).1 hs₀
  have hid : highest + 1 ≤ s.nextHostId :=
    loop_invariant (P := fun s => highest + 1 ≤ s.nextHostId)
      (fun _ _ _ _ hle hch => Nat.le_trans hle hch.id_le) (Nat.le_refl _) hloop
  simp only [nextHost, hreal, Bool.false_eq_true, if_false, pure_eq_ok, Except.ok.injEq,
    Prod.mk.injEq] at hnext
  rw [← hnext.1] at hm
  exact generatedName_not_mem hdot hh (by omega) hm

/-- For every list of arguments that does not start with a command, runs on all files keep every
host that is spared and whose name no address is stored under, iff the first argument is a deletion
or the arguments let no run return. With generated names and a prefix without a dot, no address is
stored under the name of a loaded host. -/
theorem deletion_keeps (hcmd : ∀ first ∈ args.head?, first ∉ availableCommands) :
    ((∀ (hosts : OrdDict String Value) (cfg cfg' : Value),
      cfg.getPath ["all", "hosts"] = .ok (.dict hosts.items) →
      run env args (.yaml cfg) = (.ok (), .yaml cfg') →
      ∀ p ∈ hosts.items, Spared env args p → ¬ TakenByAddress env args cfg p.1 → p ∈ hostsOf cfg') ↔
      (∃ first ∈ args.head?, IsDeletion first) ∨
        ∀ file file', run env args file ≠ (.ok (), file')) ∧
    (env.useRealHostname = false → '.' ∉ env.hostPrefix.toList →
      ∀ (hosts : OrdDict String Value) (cfg : Value),
        cfg.getPath ["all", "hosts"] = .ok (.dict hosts.items) →
        ∀ name ∈ hosts.keys, ¬ TakenByAddress env args cfg name) := by
  refine ⟨⟨fun hall => ?_, fun hcond => ?_⟩, fun hreal hdot hosts cfg hhosts name hm =>
    not_takenByAddress hreal hdot hhosts hm⟩
  · cases args with
    | nil =>
      refine .inr fun file file' h => ?_
      obtain ⟨start, hosts, w, hb, -⟩ := run_eq_ok.1 h
      exact ne_nil_of_built hb rfl
    | cons first rest =>
      by_cases hfirst : IsDeletion first
      · exact .inl ⟨first, rfl, hfirst⟩
      · refine .inr fun file file' h => ?_
        obtain ⟨name, cfg', hrun, hspared, htaken, hlost⟩ := exists_lost (hcmd first rfl) hfirst h
        exact hlost (hall ⟨[(name, hostOpts name name)], List.nodup_singleton _⟩ (oneHost name) cfg'
          rfl hrun _ (.head _) hspared htaken)
  · intro hosts cfg cfg' hhosts hrun p hp hspared htaken
    rcases hcond with ⟨first, hfirst, hdel⟩ | hnone
    · obtain ⟨rest, hargs⟩ : ∃ rest, args = first :: rest := List.head?_eq_some_iff.1 hfirst
      exact mem_hostsOf_of_loaded hargs hdel hhosts hrun hp hspared htaken
    · exact absurd hrun (hnone _ _)

end

/-- The hosts of the examples below. -/
def twoHosts : OrdDict String Value :=
  ⟨[("node1", hostOpts "10.0.0.1" "10.0.0.1"),
    ("node2", hostOpts "10.0.0.2" "10.0.0.2")], by decide⟩

theorem twoHosts_spared {args : List String}
    (hdel : ∀ arg ∈ args, IsDeletion arg → tail arg ≠ "node2" ∧ tail arg ≠ "10.0.0.2")
    (hname : ∀ arg ∈ args, ',' ∉ arg.toList) :
    Spared {} args ("node2", hostOpts "10.0.0.2" "10.0.0.2") where
  notDeleted arg ha hd := by
    obtain ⟨hn, hip⟩ := hdel arg ha hd
    exact ⟨hn, by rw [hasIp_hostOpts]; simpa using hip.symm⟩
  notNamed arg ha h := hname arg ha h.2.1

/-- The first host of two is deleted and a third one is added: the second one is kept. -/
theorem deletion_keeps_second_host : ∃ cfg',
    run {} ["-node1", "10.0.0.3"] (.yaml (Inventory.fresh.place {} twoHosts).toValue) =
      (.ok (), .yaml cfg') ∧
    ("node2", hostOpts "10.0.0.2" "10.0.0.2") ∈ hostsOf cfg' := by
  let inv := Inventory.fresh.place {} twoHosts
  have hhosts : inv.toValue.getPath ["all", "hosts"] = .ok (.dict twoHosts.items) := rfl
  have hb : builds {} ["-node1", "10.0.0.3"] (.yaml inv.toValue) = .ok (inv.toValue,
    ⟨[("node2", hostOpts "10.0.0.2" "10.0.0.2"), ("node3", hostOpts "10.0.0.3" "10.0.0.3")],
      by decide⟩) := rfl
  have hcmd : ∀ first ∈ ["-node1", "10.0.0.3"].head?, first ∉ availableCommands := by decide
  have hspared : Spared {} ["-node1", "10.0.0.3"] ("node2", hostOpts "10.0.0.2" "10.0.0.2") :=
    twoHosts_spared (by decide) (by decide)
  obtain ⟨hkeeps, htaken⟩ := @deletion_keeps {} ["-node1", "10.0.0.3"] hcmd
  exact ⟨_, run_of_builds hb,
    hkeeps.2 (.inl ⟨"-node1", rfl, by decide⟩) twoHosts inv.toValue _ hhosts
    (run_of_builds hb) _ (.tail _ (.head _)) hspared
      (htaken rfl (by decide) twoHosts _ hhosts _ (by decide))⟩

/-- The deletion stands behind an address: the file is not loaded, and the second host is lost. -/
theorem deletion_keeps_fails : ¬ ∀ (env : Env) (args : List String) (hosts : OrdDict String Value)
    (cfg cfg' : Value), (∀ first ∈ args.head?, first ∉ availableCommands) →
    (∃ arg ∈ args, IsDeletion arg) → cfg.getPath ["all", "hosts"] = .ok (.dict hosts.items) →
    run env args (.yaml cfg) = (.ok (), .yaml cfg') →
    ∀ p ∈ hosts.items, Spared env args p → p ∈ hostsOf cfg' := by
  intro h
  let inv := Inventory.fresh.place {} twoHosts
  have hb : builds {} ["10.0.0.3", "-node1"] (.yaml inv.toValue) =
      .ok (Inventory.fresh.toValue, .empty) := rfl
  have hspared : Spared {} ["10.0.0.3", "-node1"] ("node2", hostOpts "10.0.0.2" "10.0.0.2") :=
    twoHosts_spared (by decide) (by decide)
  have hm := h {} ["10.0.0.3", "-node1"] twoHosts inv.toValue _ (by decide)
    ⟨"-node1", by decide, by decide⟩ rfl (run_of_builds hb) _ (.tail _ (.head _)) hspared
  cases hm

end Kubespray
