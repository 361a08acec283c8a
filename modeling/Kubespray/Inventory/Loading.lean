import Kubespray.Inventory.Runs

/-!
# Failing runs and the file

A run that builds an inventory writes it at the very end, so it fails before it writes. `load_file`
writes after each file that it has loaded, so a run `load` that fails on a later file has changed
`CONFIG_FILE` already. `failure_keeps_file` says that this is the only way to change the file in a
run that fails. Which documents `load_file` takes is `Loadable`; it does not depend on the files
loaded before (`loadData_isOk`).
-/

namespace Kubespray

open Py

/-- A run fails if it ends with an exception or a non-zero exit. -/
def Fails (outcome : Except Exc Unit) : Prop :=
  outcome ≠ .ok () ∧ outcome ≠ .error (.systemExit 0)

/-- The options of a host in a loaded file have an `ip`. -/
def HasIpItem (opts : Value) : Prop := ∃ ip, opts.getItem "ip" = .ok ip

/-- A group in a loaded file: a mapping from hosts to options with an `ip`. The group `k8s_cluster`
takes no hosts, since `set_k8s_cluster` has left it without `hosts`. -/
def LoadableGroup (p : String × Value) : Prop :=
  ∃ kvs, p.2 = .dict kvs ∧ (∀ q ∈ kvs, HasIpItem q.2) ∧ (p.1 = "k8s_cluster" → kvs = [])

/-- A document that `load_file` takes. -/
def Loadable (data : Value) : Prop := ∃ kvs, data = .dict kvs ∧ ∀ p ∈ kvs, LoadableGroup p

/-- Whether `load_file` takes a file after it has loaded the files `before`. -/
def CanLoad (env : Env) (before : List String) (filename : String) : Prop :=
  ∃ data, env.readJson before filename = .ok data ∧ Loadable data

/-! ## One document -/

/-- A configuration with these hosts and groups. -/
def configOf (hosts children : List (String × Value)) : Value :=
  .dict [("all", .dict [("hosts", .dict hosts), ("children", .dict children)])]

/-- All groups but `k8s_cluster` have a mapping of hosts. -/
def GroupsHaveHosts (children : List (String × Value)) : Prop :=
  ∀ group v, group ≠ "k8s_cluster" → Assoc.lookup group children = some v →
    ∃ kvs, v = .dict [("hosts", .dict kvs)]

/-- The configurations that `load_file` leaves after a file. -/
def Merged (yamlConfig : Value) : Prop :=
  ∃ hosts children, yamlConfig = configOf hosts children ∧ GroupsHaveHosts children ∧
    Assoc.lookup "k8s_cluster" children = some k8sClusterGroup

/-- Whether a configuration has a group; every one has `all`. -/
def HasGroup (group : String) (yamlConfig : Value) : Prop :=
  group = "all" ∨ ∃ v, yamlConfig.getPath ["all", "children", group] = .ok v

section
variable {hosts children : List (String × Value)} {group host : String} {yamlConfig opts : Value}

theorem getPath_children_configOf :
    (configOf hosts children).getPath ["all", "children"] = .ok (.dict children) := rfl

theorem getPath_group_configOf {v : Value} :
    (configOf hosts children).getPath ["all", "children", group] = .ok v ↔
      Assoc.lookup group children = some v := by
  show (Value.getItem (.dict children) group >>= Value.getPath []) = .ok v ↔ _
  rw [Value.getItem_dict]
  cases Assoc.lookup group children <;> simp

/-- Assigning one group of a configuration. -/
theorem update_children_configOf {v : Value} :
    (configOf hosts children).update ["all", "children"] (·.setItem group v) =
      .ok (configOf hosts (Assoc.insert group v children)) := rfl

/-- A new group has a mapping of hosts, without hosts. -/
theorem GroupsHaveHosts.insert {kvs : List (String × Value)} (h : GroupsHaveHosts children) :
    GroupsHaveHosts (Assoc.insert group (.dict [("hosts", .dict kvs)]) children) := by
  intro group' v hk hl
  rw [Assoc.lookup_insert] at hl
  split at hl
  · cases hl
    exact ⟨kvs, rfl⟩
  · exact h group' v hk hl

/-- `ensure_required_groups` of one more group. -/
theorem ensureRequiredGroup_merged (h : Merged yamlConfig) (group : String) :
    ∃ yamlConfig', ensureRequiredGroup yamlConfig group = .ok yamlConfig' ∧ Merged yamlConfig' ∧
      HasGroup group yamlConfig' := by
  obtain ⟨hosts, children, rfl, hgroups, hk8s⟩ := h
  by_cases hall : group = "all"
  · subst hall
    exact ⟨_, rfl, ⟨hosts, children, rfl, hgroups, hk8s⟩, .inl rfl⟩
  rw [ensureRequiredGroup, if_neg hall, getPath_children_configOf, ok_bind]
  by_cases hm : group ∈ Assoc.keys children
  · have hc : Value.contains (.dict children) group = .ok true := by simp [Value.contains, hm]
    obtain ⟨v, hv⟩ := Option.isSome_iff_exists.1 (Assoc.lookup_isSome.2 hm)
    rw [hc]
    exact ⟨_, rfl, ⟨hosts, children, rfl, hgroups, hk8s⟩, .inr ⟨v, getPath_group_configOf.2 hv⟩⟩
  · have hc : Value.contains (.dict children) group = .ok false := by simp [Value.contains, hm]
    rw [hc]
    have hne : group ≠ "k8s_cluster" := by
      rintro rfl
      rw [Assoc.lookup_eq_none.2 hm] at hk8s
      cases hk8s
    refine ⟨_, update_children_configOf, ⟨hosts, _, rfl, hgroups.insert, ?_⟩,
      .inr ⟨_, getPath_group_configOf.2 (Assoc.lookup_insert_self _ _ _)⟩⟩
    rw [Assoc.lookup_insert_of_ne hne, hk8s]

/-- `add_host_to_group` for the group `all`. -/
theorem addHostToGroup_all_configOf :
    addHostToGroup "all" host opts (configOf hosts children) =
      .ok (configOf (Assoc.insert host opts hosts) children) := rfl

/-- `add_host_to_group` for a group with a mapping of hosts. -/
theorem addHostToGroup_group_configOf {kvs : List (String × Value)} (hall : group ≠ "all")
    (hsub : group ≠ "k8s_cluster:children")
    (hl : Assoc.lookup group children = some (.dict [("hosts", .dict kvs)])) :
    addHostToGroup group host opts (configOf hosts children) =
      .ok (configOf hosts (Assoc.insert group
        (.dict [("hosts", .dict (Assoc.insert host .none kvs))]) children)) := by
  have hget : (configOf hosts children).getPath ["all", "children", group, "hosts"] =
      .ok (.dict kvs) := by
    show (Value.getItem (.dict children) group >>= Value.getPath ["hosts"]) = _
    rw [Value.getItem_dict, hl]
    rfl
  have hnone : (Value.dict kvs).isNone = false := rfl
  rw [addHostToGroup, if_neg hall, if_pos hsub, hget, ok_bind, hnone, if_neg Bool.false_ne_true]
  simp [configOf, Assoc.lookup, Assoc.insert, hl]

/-- `add_host_to_group` fails for the group `k8s_cluster`, which has no `hosts`. -/
theorem addHostToGroup_k8sCluster
    (hl : Assoc.lookup "k8s_cluster" children = some k8sClusterGroup) :
    addHostToGroup "k8s_cluster" host opts (configOf hosts children) =
      .error (.keyError "hosts") := by
  have hget : (configOf hosts children).getPath ["all", "children", "k8s_cluster", "hosts"] =
      .error (.keyError "hosts") := by
    show (Value.getItem (.dict children) "k8s_cluster" >>= Value.getPath ["hosts"]) = _
    rw [Value.getItem_dict, hl]
    rfl
  rw [addHostToGroup, if_neg (by decide), if_pos (by decide), hget]
  rfl

/-- A host is added to every group that the configuration has, but not to `k8s_cluster`. -/
theorem addHostToGroup_merged (host : String) (opts : Value) (h : Merged yamlConfig)
    (hg : HasGroup group yamlConfig) (hne : group ≠ "k8s_cluster") :
    ∃ yamlConfig', addHostToGroup group host opts yamlConfig = .ok yamlConfig' ∧
      Merged yamlConfig' ∧ HasGroup group yamlConfig' := by
  obtain ⟨hosts, children, rfl, hgroups, hk8s⟩ := h
  by_cases hall : group = "all"
  · subst hall
    exact ⟨_, addHostToGroup_all_configOf, ⟨_, children, rfl, hgroups, hk8s⟩, .inl rfl⟩
  by_cases hsub : group = "k8s_cluster:children"
  · subst hsub
    exact ⟨_, rfl, ⟨hosts, children, rfl, hgroups, hk8s⟩, hg⟩
  obtain ⟨v, hv⟩ := hg.resolve_left hall
  rw [getPath_group_configOf] at hv
  obtain ⟨kvs, rfl⟩ := hgroups group v hne hv
  refine ⟨_, addHostToGroup_group_configOf hall hsub hv, ⟨hosts, _, rfl, hgroups.insert, ?_⟩,
    .inr ⟨_, getPath_group_configOf.2 (Assoc.lookup_insert_self _ _ _)⟩⟩
  rw [Assoc.lookup_insert_of_ne hne, hk8s]

/-- Adding a host to `all` keeps the groups. -/
theorem addHostToGroup_all_merged (host : String) (opts : Value) (h : Merged yamlConfig)
    (hg : HasGroup group yamlConfig) :
    ∃ yamlConfig', addHostToGroup "all" host opts yamlConfig = .ok yamlConfig' ∧
      Merged yamlConfig' ∧ HasGroup group yamlConfig' := by
  obtain ⟨hosts, children, rfl, hgroups, hk8s⟩ := h
  refine ⟨_, addHostToGroup_all_configOf, ⟨_, children, rfl, hgroups, hk8s⟩, hg.imp_right ?_⟩
  rintro ⟨v, hv⟩
  exact ⟨v, getPath_group_configOf.2 (getPath_group_configOf.1 hv)⟩

/-- One host of `load_file`: it is taken if its options have an `ip` and its group takes hosts. -/
theorem loadHost_merged {p : String × Value} (h : Merged yamlConfig)
    (hg : HasGroup group yamlConfig) :
    ((∃ yamlConfig', loadHost group yamlConfig p = .ok yamlConfig') ↔
      HasIpItem p.2 ∧ group ≠ "k8s_cluster") ∧
    ∀ yamlConfig', loadHost group yamlConfig p = .ok yamlConfig' →
      Merged yamlConfig' ∧ HasGroup group yamlConfig' := by
  rw [loadHost]
  cases hip : p.2.getItem "ip" with
  | error e => simp [HasIpItem, hip]
  | ok ip =>
    obtain ⟨c, hc, hm, hgc⟩ := addHostToGroup_all_merged p.1
      (.dict [("ansible_host", ip), ("ip", ip), ("access_ip", ip)]) h hg
    simp only [ok_bind, hc]
    by_cases hne : group = "k8s_cluster"
    · subst hne
      obtain ⟨hosts, children, rfl, -, hk8s⟩ := hm
      simp [addHostToGroup_k8sCluster hk8s]
    · obtain ⟨c', hc', hm', hgc'⟩ := addHostToGroup_merged p.1 noOpts hm hgc hne
      rw [hc']
      refine ⟨⟨fun _ => ⟨⟨ip, hip⟩, hne⟩, fun _ => ⟨c', rfl⟩⟩, ?_⟩
      rintro _ ⟨⟩
      exact ⟨hm', hgc'⟩

/-- One group of `load_file`. -/
theorem loadGroup_merged {p : String × Value} (h : Merged yamlConfig) :
    ((∃ yamlConfig', loadGroup yamlConfig p = .ok yamlConfig') ↔ LoadableGroup p) ∧
    ∀ yamlConfig', loadGroup yamlConfig p = .ok yamlConfig' → Merged yamlConfig' := by
  obtain ⟨c, hc, hm, hg⟩ := ensureRequiredGroup_merged h p.1
  have hensure : ensureRequiredGroups [p.1] yamlConfig = .ok c := by
    rw [ensureRequiredGroups, List.foldlM_cons, hc]
    rfl
  rw [loadGroup, hensure, ok_bind]
  cases hv : p.2 with
  | dict kvs =>
    have hstep := fun b (q : String × Value) (hb : Merged b ∧ HasGroup p.1 b) =>
      loadHost_merged (p := q) hb.1 hb.2
    have hfold := foldlM_isOk_iff (P := fun c => Merged c ∧ HasGroup p.1 c) (l := kvs)
      (fun b q _ hb => (hstep b q hb).1) (fun b b' q _ hb hs => (hstep b q hb).2 b' hs) ⟨hm, hg⟩
    refine ⟨hfold.trans ?_, fun c' hc' => ?_⟩
    · simp only [LoadableGroup, hv, Value.dict.injEq]
      constructor
      · intro hall
        refine ⟨kvs, rfl, fun q hq => (hall q hq).1, fun hk => ?_⟩
        exact List.eq_nil_iff_forall_not_mem.2 fun q hq => (hall q hq).2 hk
      · rintro ⟨_, rfl, hall, hk⟩ q hq
        exact ⟨hall q hq, fun he => by rw [hk he] at hq; cases hq⟩
    · exact (foldlM_invariant (fun b b' q _ hb hs => (hstep b q hb).2 b' hs) ⟨hm, hg⟩ hc').1
  | _ => simp [LoadableGroup, hv, items]

/-- `set_k8s_cluster` replaces the group `k8s_cluster`. -/
theorem setK8sCluster_configOf (h : GroupsHaveHosts children) :
    ∃ yamlConfig', setK8sCluster (configOf hosts children) = .ok yamlConfig' ∧
      Merged yamlConfig' := by
  refine ⟨_, update_children_configOf, hosts, _, rfl, fun group v hk hl => ?_,
    Assoc.lookup_insert_self _ _ _⟩
  rw [Assoc.lookup_insert_of_ne (Ne.symm hk)] at hl
  exact h group v hk hl

/-- `ensure_required_groups`. -/
theorem ensureRequiredGroups_merged (groups : List String) (h : Merged yamlConfig) :
    ∃ yamlConfig', ensureRequiredGroups groups yamlConfig = .ok yamlConfig' ∧
      Merged yamlConfig' := by
  induction groups generalizing yamlConfig with
  | nil => exact ⟨yamlConfig, rfl, h⟩
  | cons group groups ih =>
    obtain ⟨c, hc, hm, -⟩ := ensureRequiredGroup_merged h group
    obtain ⟨c', hc', hm'⟩ := ih hm
    refine ⟨c', ?_, hm'⟩
    rw [ensureRequiredGroups, List.foldlM_cons, hc, ok_bind]
    exact hc'

/-- The configuration that a document is merged into: at first empty, then that of the files
before. -/
theorem prepared (h : yamlConfig = .dict [] ∨ Merged yamlConfig) :
    ∃ yamlConfig', (ensureRequiredGroups roles yamlConfig >>= setK8sCluster) = .ok yamlConfig' ∧
      Merged yamlConfig' := by
  rcases h with rfl | h
  · have hfresh : ensureRequiredGroups roles (.dict []) = .ok Inventory.fresh.toValue := rfl
    rw [hfresh, ok_bind]
    refine setK8sCluster_configOf fun group v _ hl => ?_
    have hmem := Assoc.mem_of_lookup hl
    simp only [List.mem_cons, Prod.mk.injEq, List.not_mem_nil, or_false] at hmem
    rcases hmem with ⟨-, rfl⟩ | ⟨-, rfl⟩ | ⟨-, rfl⟩ | ⟨-, rfl⟩ | ⟨-, rfl⟩ <;> exact ⟨[], rfl⟩
  · obtain ⟨c, hc, hosts, children, rfl, hgroups, -⟩ := ensureRequiredGroups_merged roles h
    rw [hc, ok_bind]
    exact setK8sCluster_configOf hgroups

/-- `load_file` takes a document iff it is loadable, whatever files were loaded before. -/
theorem loadData_isOk {data : Value} (h : yamlConfig = .dict [] ∨ Merged yamlConfig) :
    ((∃ yamlConfig', loadData yamlConfig data = .ok yamlConfig') ↔ Loadable data) ∧
    ∀ yamlConfig', loadData yamlConfig data = .ok yamlConfig' → Merged yamlConfig' := by
  obtain ⟨c, hc, hm⟩ := prepared h
  have hload : loadData yamlConfig data = (items data >>= fun kvs => kvs.foldlM loadGroup c) := by
    rw [bind_eq_ok] at hc
    obtain ⟨c₁, h₁, h₂⟩ := hc
    rw [loadData, h₁, ok_bind, h₂, ok_bind]
  rw [hload]
  cases data with
  | dict kvs =>
    have hfold := foldlM_isOk_iff (P := Merged) (l := kvs)
      (fun b p _ hb => (loadGroup_merged (p := p) hb).1)
      (fun b b' p _ hb hs => (loadGroup_merged hb).2 b' hs) hm
    refine ⟨hfold.trans ?_, fun c' hc' => ?_⟩
    · simp [Loadable]
    · exact foldlM_invariant (fun b b' p _ hb hs => (loadGroup_merged hb).2 b' hs) hm hc'
  | _ => simp [Loadable, items]

end

/-! ## Exceptions that are no exits -/

/-- A computation that does not call `sys.exit`. -/
def NoExit {α : Type} (x : Except Exc α) : Prop := ∀ code, x ≠ .error (.systemExit code)

namespace NoExit
variable {α β : Type} {x : Except Exc α}

theorem ok {a : α} : NoExit (.ok a : Except Exc α) := fun _ h => by cases h

theorem bind {f : α → Except Exc β} (hx : NoExit x) (hf : ∀ a, NoExit (f a)) :
    NoExit (x >>= f) := by
  cases x with
  | error e => exact fun code h => hx code (by cases h; rfl)
  | ok a => exact hf a

theorem foldlM {δ : Type} {f : β → δ → Except Exc β} (hf : ∀ b a, NoExit (f b a)) (l : List δ)
    (b : β) : NoExit (l.foldlM f b) := by
  induction l generalizing b with
  | nil => exact ok
  | cons a l ih => exact (hf b a).bind ih

theorem getItem (v : Value) (k : String) : NoExit (v.getItem k) := by
  intro code h
  cases v with
  | dict kvs =>
    rw [Value.getItem_dict] at h
    split at h <;> cases h
  | _ => cases h

theorem setItem (v : Value) (k : String) (w : Value) : NoExit (v.setItem k w) := by
  intro code h
  cases v <;> cases h

theorem contains (v : Value) (k : String) : NoExit (v.contains k) := by
  intro code h
  cases v <;> cases h

theorem getPath (ks : List String) (v : Value) : NoExit (v.getPath ks) := by
  induction ks generalizing v with
  | nil => exact ok
  | cons k ks ih => exact (getItem v k).bind ih

theorem update {f : Value → Except Exc Value} (hf : ∀ v, NoExit (f v)) (ks : List String)
    (v : Value) : NoExit (v.update ks f) := by
  induction ks generalizing v with
  | nil => exact hf v
  | cons k ks ih => exact (getItem v k).bind fun c => (ih c).bind fun c' => setItem v k c'

theorem ensureRequiredGroup (yamlConfig : Value) (group : String) :
    NoExit (ensureRequiredGroup yamlConfig group) := by
  unfold Kubespray.ensureRequiredGroup
  split
  · refine (contains _ _).bind fun b => ?_
    split <;> exact ok
  · refine (getPath _ _).bind fun children => (contains _ _).bind fun b => ?_
    split
    · exact ok
    · exact update (fun v => setItem v _ _) _ _

theorem addHostToGroup (group host : String) (opts yamlConfig : Value) :
    NoExit (addHostToGroup group host opts yamlConfig) := by
  unfold Kubespray.addHostToGroup
  split
  · refine (getPath _ _).bind fun hosts => ?_
    split
    · exact (update (fun v => setItem v _ _) _ _).bind fun c => update (fun v => setItem v _ _) _ _
    · exact ok.bind fun c => update (fun v => setItem v _ _) _ _
  · split
    · refine (getPath _ _).bind fun hosts => ?_
      split <;> exact update (fun v => setItem v _ _) _ _
    · exact ok

theorem items (v : Value) : NoExit (items v) := by
  intro code h
  cases v <;> cases h

theorem loadHost (group : String) (yamlConfig : Value) (p : String × Value) :
    NoExit (loadHost group yamlConfig p) :=
  (getItem p.2 "ip").bind fun _ => (addHostToGroup _ _ _ _).bind fun _ => addHostToGroup _ _ _ _

theorem loadGroup (yamlConfig : Value) (p : String × Value) : NoExit (loadGroup yamlConfig p) :=
  (foldlM ensureRequiredGroup _ _).bind fun _ => (items p.2).bind fun _ => foldlM (loadHost p.1) _ _

/-- Merging a document does not exit. -/
theorem loadData (yamlConfig data : Value) : NoExit (loadData yamlConfig data) :=
  (foldlM ensureRequiredGroup _ _).bind fun _ => (update (fun v => setItem v _ _) _ _).bind fun _ =>
    (items data).bind fun _ => foldlM loadGroup _ _

end NoExit

/-! ## The run -/

section
variable {env : Env} {before files : List String} {name : String} {yamlConfig : Value}
  {file : ConfigFile}

theorem exec_liftExcept {α : Type} (x : Except Exc α) (file : ConfigFile) :
    Script.exec (liftExcept x) file = (x, file) := by
  cases x <;> rfl

/-- One file of `load_file`. -/
theorem exec_loadOne (env : Env) (before : List String) (yamlConfig : Value) (name : String)
    (file : ConfigFile) :
    (loadOne env before yamlConfig name).exec file =
      match readData env before name >>= loadData yamlConfig with
      | .ok w => (.ok w, .yaml w)
      | .error e => (.error e, file) := by
  rw [loadOne, Script.exec_bind, exec_liftExcept]
  cases readData env before name with
  | error e => rfl
  | ok data =>
    simp only [ok_bind, Script.exec_bind, exec_liftExcept]
    cases loadData yamlConfig data <;> rfl

theorem readData_eq_ok {data : Value} :
    readData env before name = .ok data ↔ env.readJson before name = .ok data := by
  unfold readData
  split
  · next h => simp [h]
  · rfl

/-- What a file does to the configuration: a file that can be loaded is merged, any other one raises
an exception. -/
theorem loadOne_isOk (h : yamlConfig = .dict [] ∨ Merged yamlConfig) :
    ((∃ w, (readData env before name >>= loadData yamlConfig) = .ok w) ↔ CanLoad env before name) ∧
    ∀ w, (readData env before name >>= loadData yamlConfig) = .ok w → Merged w := by
  simp only [bind_eq_ok, readData_eq_ok]
  constructor
  · constructor
    · rintro ⟨w, data, hdata, hw⟩
      exact ⟨data, hdata, (loadData_isOk h).1.1 ⟨w, hw⟩⟩
    · rintro ⟨data, hdata, hl⟩
      obtain ⟨w, hw⟩ := (loadData_isOk h).1.2 hl
      exact ⟨w, data, hdata, hw⟩
  · rintro w ⟨data, -, hw⟩
    exact (loadData_isOk h).2 w hw

/-- No file raises `SystemExit` when `json.load` does not. -/
theorem loadOne_noExit (hjson : NoExit (env.readJson before name)) :
    NoExit (readData env before name >>= loadData yamlConfig) := by
  refine NoExit.bind ?_ fun data => NoExit.loadData yamlConfig data
  unfold readData
  split
  · exact fun code h => by cases h
  · exact hjson

/-- If all files can be loaded, the loop returns. -/
theorem exec_loadFiles_ok (before : List String) (file : ConfigFile)
    (h : yamlConfig = .dict [] ∨ Merged yamlConfig)
    (hall : ∀ pre next post, files = pre ++ next :: post → CanLoad env (before ++ pre) next) :
    ∃ w file', (loadFiles env before yamlConfig files).exec file = (.ok w, file') := by
  induction files generalizing before yamlConfig file with
  | nil => exact ⟨yamlConfig, file, rfl⟩
  | cons name files ih =>
    have hname : CanLoad env before name := by simpa using hall [] name files rfl
    obtain ⟨w, hw⟩ := (loadOne_isOk h).1.2 hname
    obtain ⟨w', file', hexec⟩ := ih (before ++ [name]) (.yaml w)
      (.inr ((loadOne_isOk h).2 w hw)) fun pre next post he => by
        have := hall (name :: pre) next post (by rw [he]; rfl)
        simpa using this
    refine ⟨w', file', ?_⟩
    rw [loadFiles, Script.exec_bind, exec_loadOne, hw]
    exact hexec

/-- If a file cannot be loaded, the loop ends with an exception: at once if it is the first file,
and else after it has written the files before. -/
theorem exec_loadFiles_error (before : List String) (file : ConfigFile)
    (hjson : ∀ before name, NoExit (env.readJson before name))
    (h : yamlConfig = .dict [] ∨ Merged yamlConfig) {pre post : List String} {next : String}
    (hfiles : files = pre ++ next :: post) (hnext : ¬ CanLoad env (before ++ pre) next) :
    ∃ e file', (loadFiles env before yamlConfig files).exec file = (.error e, file') ∧
      e ≠ .systemExit 0 ∧
      ((∀ name rest, files = name :: rest → ¬ CanLoad env before name) ∧ file' = file ∨
        (∃ name rest, files = name :: rest ∧ CanLoad env before name) ∧ ∃ w, file' = .yaml w) := by
  induction files generalizing before yamlConfig file pre with
  | nil => simp at hfiles
  | cons name files ih =>
    rw [loadFiles, Script.exec_bind, exec_loadOne]
    have hexit : NoExit (readData env before name >>= loadData yamlConfig) :=
      loadOne_noExit (hjson before name)
    cases hw : readData env before name >>= loadData yamlConfig with
    | error e =>
      rw [hw] at hexit
      refine ⟨e, file, rfl, fun he => hexit 0 (by rw [he]), .inl ⟨?_, rfl⟩⟩
      rintro _ _ ⟨⟩ hname
      obtain ⟨w, hw'⟩ := (loadOne_isOk h).1.2 hname
      rw [hw] at hw'
      cases hw'
    | ok w =>
      have hname : CanLoad env before name := (loadOne_isOk h).1.1 ⟨w, hw⟩
      cases pre with
      | nil =>
        cases hfiles
        rw [List.append_nil] at hnext
        exact absurd hname hnext
      | cons name' pre =>
        cases hfiles
        obtain ⟨e, file', hexec, he, hcase⟩ := ih (before ++ [name]) (.yaml w)
          (.inr ((loadOne_isOk h).2 w hw)) rfl (by simpa using hnext)
        refine ⟨e, file', hexec, he, .inr ⟨⟨name, _, rfl, hname⟩, ?_⟩⟩
        rcases hcase with ⟨-, rfl⟩ | ⟨-, hw'⟩
        · exact ⟨w, rfl⟩
        · exact hw'

/-- A run `load`. -/
theorem run_load (env : Env) (name : String) (files : List String) (file : ConfigFile) :
    run env ("load" :: name :: files) file =
      match (loadFiles env [] (.dict []) (name :: files)).exec file with
      | (.ok _, file') => (.error (.systemExit 0), file')
      | (.error e, file') => (.error e, file') := by
  show Script.exec (loadFile env (name :: files) >>= fun _ => throw (.systemExit 0)) file = _
  have hload : (loadFile env (name :: files)).exec file =
      Script.exec (loadFiles env [] (.dict []) (name :: files) >>= fun _ => pure ()) file := rfl
  rw [Script.exec_bind, hload, Script.exec_bind]
  rcases (loadFiles env [] (.dict []) (name :: files)).exec file with ⟨r, file'⟩
  cases r <;> rfl

/-- Reading commands and `print_hostnames` keep the file. -/
theorem exec_bind_keeps {α β : Type} {m : Script α} {f : α → Script β}
    (hm : ∀ file, (m.exec file).2 = file) (hf : ∀ a file, ((f a).exec file).2 = file)
    (file : ConfigFile) : (Script.exec (m >>= f) file).2 = file := by
  have h := hm file
  rw [Script.exec_bind]
  rcases hx : m.exec file with ⟨r, file'⟩
  rw [hx] at h
  obtain rfl : file' = file := h
  cases r with
  | error e => rfl
  | ok a => exact hf a file'

theorem exec_liftExcept_keeps {α : Type} (x : Except Exc α) (file : ConfigFile) :
    (Script.exec (liftExcept x) file).2 = file := by
  rw [exec_liftExcept]

/-- The end of a run that builds an inventory changes the file only if it returns. -/
theorem writeUpdated_keeps {add : Bool} {args : List String}
    (h : Fails ((writeUpdated env add args).exec file).1) :
    ((writeUpdated env add args).exec file).2 = file := by
  rw [exec_writeUpdated] at h ⊢
  cases hu : updated env add args file with
  | error e => rfl
  | ok w =>
    rw [hu] at h
    exact absurd rfl h.1

/-- Every other command that fails leaves the file alone. -/
theorem failure_keeps_file_of_ne {argv : List String}
    (h : ∀ name files, argv ≠ "load" :: name :: files) (hfail : Fails (run env argv file).1) :
    (run env argv file).2 = file := by
  cases argv with
  | nil => exact writeUpdated_keeps hfail
  | cons command args =>
    rw [run, kubesprayInventory] at hfail ⊢
    split at hfail
    · next hc =>
      rw [if_pos hc]
      exact writeUpdated_keeps hfail
    · next hc =>
      rw [if_neg hc]
      split at hfail
      · next hadd =>
        rw [if_pos hadd]
        exact writeUpdated_keeps hfail
      · next hadd =>
        rw [if_neg hadd]
        split
        · exact exec_bind_keeps (fun _ => rfl) (fun _ => exec_bind_keeps (exec_liftExcept_keeps _)
            fun _ => exec_bind_keeps (exec_liftExcept_keeps _) fun _ _ => rfl) file
        · refine exec_bind_keeps (fun file => ?_) (fun _ _ => rfl) file
          unfold parseCommand
          split_ifs with hhelp hips hload
          · rfl
          · exact exec_liftExcept_keeps _ file
          · cases args with
            | nil => rfl
            | cons name files => exact absurd (by rw [hload]) (h name files)
          · rfl

/-- For every content of the file, a run that fails leaves it as it was, iff the run is no `load`
that can load its first file and cannot load a later one. -/
theorem failure_keeps_file {argv : List String}
    (hjson : ∀ before name, NoExit (env.readJson before name)) :
    (∀ file, Fails (run env argv file).1 → (run env argv file).2 = file) ↔
      ∀ name files, argv = "load" :: name :: files → CanLoad env [] name →
        ∀ before next after, files = before ++ next :: after →
          CanLoad env (name :: before) next := by
  constructor
  · rintro h name files rfl hname before next after rfl
    by_contra hnext
    have hfiles : name :: (before ++ next :: after) = (name :: before) ++ next :: after := rfl
    obtain ⟨e, file', hexec, he, hcase⟩ :=
      exec_loadFiles_error [] .absent hjson (.inl rfl) hfiles hnext
    rcases hcase with ⟨hno, -⟩ | ⟨-, w, rfl⟩
    · exact hno name _ rfl hname
    · have hrun := run_load env name (before ++ next :: after) .absent
      rw [hexec] at hrun
      have hfail : Fails (run env ("load" :: name :: (before ++ next :: after)) .absent).1 := by
        rw [hrun]
        exact ⟨nofun, fun hexit => he (Except.error.inj hexit)⟩
      have hkeep := h .absent hfail
      rw [hrun] at hkeep
      cases hkeep
  · intro h file hfail
    by_cases hload : ∃ name files, argv = "load" :: name :: files
    · obtain ⟨name, files, rfl⟩ := hload
      rw [run_load] at hfail ⊢
      by_cases hall : ∀ pre next post, name :: files = pre ++ next :: post →
        CanLoad env ([] ++ pre) next
      · obtain ⟨w, file', hexec⟩ := exec_loadFiles_ok [] file (.inl rfl) hall
        rw [hexec] at hfail
        exact absurd rfl hfail.2
      · push Not at hall
        obtain ⟨pre, next, post, hfiles, hnext⟩ := hall
        obtain ⟨e, file', hexec, -, hcase⟩ := exec_loadFiles_error [] file hjson (.inl rfl)
          hfiles hnext
        rw [hexec]
        rcases hcase with ⟨-, rfl⟩ | ⟨⟨_, _, ⟨⟩, hname⟩, -⟩
        · rfl
        · cases pre with
          | nil =>
            cases hfiles
            exact absurd hname hnext
          | cons name' pre =>
            cases hfiles
            exact absurd (h name _ rfl hname pre next post rfl) hnext
    · push Not at hload
      exact failure_keeps_file_of_ne hload hfail

end

/-- No file is JSON. -/
def noJson : Env := { readJson := fun _ _ => .error (.valueError "Expecting value") }

/-- The first file is no JSON: the run fails, and there is no inventory as before. -/
theorem failure_keeps_file_no_json :
    Fails (run noJson ["load", "a.json", "b.json"] .absent).1 ∧
      (run noJson ["load", "a.json", "b.json"] .absent).2 = .absent := by
  have hjson : ∀ before name, NoExit (noJson.readJson before name) := fun _ _ _ he => by cases he
  have hfails : Fails (run noJson ["load", "a.json", "b.json"] .absent).1 := ⟨nofun, nofun⟩
  refine ⟨hfails, (failure_keeps_file hjson).2 (fun name files _ hname => ?_) _ hfails⟩
  obtain ⟨document, hread, -⟩ := hname
  cases hread

/-- The second of two files is no JSON: the first one has replaced the inventory. -/
theorem failure_keeps_file_fails : ¬ ∀ (env : Env) (argv : List String) (file : ConfigFile),
    (∀ before name, NoExit (env.readJson before name)) → Fails (run env argv file).1 →
      (run env argv file).2 = file := by
  intro h
  let env : Env := { readJson := fun _ name =>
    if name = "a.json" then .ok (.dict []) else .error (.valueError "Expecting value") }
  have hjson : ∀ before name, NoExit (env.readJson before name) := by
    intro before name
    show NoExit (if name = "a.json" then _ else _)
    split
    · exact NoExit.ok
    · exact fun code he => by cases he
  have hrun : run env ["load", "a.json", "b.json"] .absent =
      (.error (.exception "Cannot read %s as JSON, or CSV"),
        .yaml { Inventory.fresh with k8sCluster := k8sClusterGroup }.toValue) := rfl
  have hkeep :=
      h env ["load", "a.json", "b.json"] .absent hjson (by rw [hrun]; exact ⟨nofun, nofun⟩)
  rw [hrun] at hkeep
  cases hkeep

end Kubespray
