import Kubespray.Inventory.Extension

/-!
# Running an addition twice

A run `add` with addresses reaches a fixpoint: the second run finds every address that the first
one has stored, so it builds the same host list, and the passes of a second run with one host list
change nothing (`Inventory.place_place`). `argument_twice` is one argument in both runs,
`loop_twice` the loop, and `add_twice` the run.
-/

namespace Kubespray

open Py

/-- An argument `ip` or `ip,access_ip`, or a range of addresses: it is no deletion, and it has no
name before a comma. -/
def IsIpArg (env : Env) (text : String) : Prop :=
  ¬ IsDeletion text ∧ (StartsWithLetter env text → ',' ∉ text.toList)

/-! ## The passes -/

namespace Inventory

/-- To purge a dictionary and assign the same entries again changes nothing. -/
theorem filter_insertAll_twice {p : String → Bool} {d : OrdDict String Value}
    {ps : List (String × Value)} (hps : (Assoc.keys ps).Nodup)
    (hp : ∀ k ∈ Assoc.keys ps, p k = true) :
    (((d.filter p).insertAll ps).filter p).insertAll ps = (d.filter p).insertAll ps := by
  have hkeep : ((d.filter p).insertAll ps).filter p = (d.filter p).insertAll ps := by
    refine OrdDict.filter_eq_self fun k hk => ?_
    rw [OrdDict.mem_keys_insertAll, OrdDict.keys_filter, List.mem_filter] at hk
    rcases hk with ⟨-, hk⟩ | hk
    · exact hk
    · exact hp k hk
  rw [hkeep]
  refine OrdDict.ext (Assoc.insertAll_of_lookup fun q hq => ?_)
  rw [OrdDict.items_insertAll, Assoc.lookup_insertAll hps, Assoc.lookup_of_mem hps hq]
  rfl

section
variable (env : Env) (inv : Inventory) (hosts : OrdDict String Value)

/-- The hosts that a run adds to a group are those that a second run adds. -/
theorem place_group_twice (r : Role)
    (hadd : (inv.place env hosts).added env hosts r = inv.added env hosts r) :
    ((inv.place env hosts).place env hosts).group r = (inv.place env hosts).group r := by
  rw [place_group, hadd, place_group]
  refine filter_insertAll_twice ?_ fun k hk => ?_
  · rw [keys_entries]
    exact hosts.nodup_keys.sublist (added_sublist r)
  · rw [keys_entries] at hk
    exact keeps_iff.2 (.inl (mem_of_mem_added hk))

theorem place_hosts_twice :
    ((inv.place env hosts).place env hosts).hosts = (inv.place env hosts).hosts := by
  rw [place_hosts, place_hosts]
  exact filter_insertAll_twice hosts.nodup fun k hk => keeps_iff.2 (.inl hk)

/-- A second run with the same host list leaves the inventory as it is. -/
theorem place_place : (inv.place env hosts).place env hosts = inv.place env hosts := by
  have hhosts := place_hosts_twice env inv hosts
  have hetcd := place_group_twice env inv hosts .etcd rfl
  have hcp := place_group_twice env inv hosts .kubeControlPlane rfl
  -- `set_kube_node` reads the groups that the passes before it have filled
  have hkn : (inv.place env hosts).added env hosts .kubeNode = inv.added env hosts .kubeNode := by
    refine List.filter_congr fun h _ => ?_
    show nodeEligible env ((inv.place env hosts).place env hosts) h =
      nodeEligible env (inv.place env hosts) h
    rw [nodeEligible, nodeEligible, hhosts, hetcd, hcp]
  have hgroup : ((inv.place env hosts).place env hosts).group = (inv.place env hosts).group := by
    funext r
    cases r with
    | kubeControlPlane => exact hcp
    | kubeNode => exact place_group_twice env inv hosts .kubeNode hkn
    | etcd => exact hetcd
    | calicoRr => exact place_group_twice env inv hosts .calicoRr rfl
  have hmk : ∀ a b : Inventory, a.hosts = b.hosts → a.group = b.group →
      a.k8sCluster = b.k8sCluster → a = b := by
    rintro ⟨_, _, _⟩ ⟨_, _, _⟩ rfl rfl rfl
    rfl
  exact hmk _ _ hhosts hgroup rfl

end

end Inventory

/-! ## The loop -/

/-- What the loop over addresses keeps: the names start with letters, the names of later numbers
are free, the loop of a later run can read all ids, and the last address that was read is carried
by a host. -/
structure Adding (env : Env) (s : Locals) : Prop where
  ips : HasIps s.allHosts
  letter : ∀ k ∈ s.allHosts.keys, StartsWithLetter env k
  fresh : ∀ i, s.nextHostId ≤ i → generatedName env i ∉ s.allHosts.keys
  ids : ∀ k ∈ s.allHosts.keys, startsWith k env.hostPrefix = true → ∃ id, getHostId env k = .ok id
  ip : ∀ ip, s.ip = some ip → carriesIp s.allHosts ip = true

/-- In a later run with at least the hosts of `s'`, the argument leads to the address that it leads
to from `s`, and changes no host. -/
def Again (env : Env) (args : List String) (s s' : Locals) : Prop :=
  ∀ t : Locals, (∀ p ∈ s'.allHosts.items, p ∈ t.allHosts.items) → HasIps t.allHosts → t.ip = s.ip →
    ∃ t', args.foldlM (argument env) t = .ok t' ∧ t'.allHosts = t.allHosts ∧ t'.ip = s'.ip

section
variable {env : Env} {s s' : Locals} {host : String}

theorem carriesIp_mono {hosts hosts' : OrdDict String Value} {ip : String}
    (h : ∀ p ∈ hosts.items, p ∈ hosts'.items) (hc : carriesIp hosts ip = true) :
    carriesIp hosts' ip = true := by
  obtain ⟨p, hp, hi⟩ := carriesIp_iff.1 hc
  exact carriesIp_iff.2 ⟨p, h p hp, hi⟩

/-- Of the texts that start with a digit none starts with a letter. -/
theorem not_startsWithLetter_of_digit (h : host.toList.head?.any env.chars.isdigit = true) :
    ¬ StartsWithLetter env host := by
  intro hl
  unfold StartsWithLetter at hl
  cases hh : host.toList.head? with
  | none => rw [hh] at h; cases h
  | some c =>
    rw [hh] at h hl
    have hno := env.chars.isdigit_of_isalpha c hl
    rw [show env.chars.isdigit c = true from h] at hno
    cases hno

/-- A new host gets the name of the next number, and the last address is its own. -/
theorem Adding.insert {t : Locals} {ip accessIp : String} (hdot : '.' ∉ env.hostPrefix.toList)
    (hpre : StartsWithLetter env env.hostPrefix) (hs : Adding env s)
    (hhosts : t.allHosts =
      s.allHosts.insert (generatedName env s.nextHostId) (hostOpts accessIp ip))
    (hid : t.nextHostId = s.nextHostId + 1) (hip : t.ip = some ip) :
    Adding env t ∧ t.allHosts.items =
      s.allHosts.items ++ [(generatedName env s.nextHostId, hostOpts accessIp ip)] := by
  have hfree : generatedName env s.nextHostId ∉ s.allHosts.keys := hs.fresh _ (le_refl _)
  have hitems : t.allHosts.items =
      s.allHosts.items ++ [(generatedName env s.nextHostId, hostOpts accessIp ip)] := by
    rw [hhosts]
    exact Assoc.insert_of_not_mem hfree _
  refine ⟨⟨fun p hp => ?_, fun k hk => ?_, fun i hi hm => ?_, fun k hk hp => ?_,
    fun ip' hip' => ?_⟩, hitems⟩
  · rw [hitems] at hp
    rcases List.mem_append.1 hp with hp | hp
    · exact hs.ips p hp
    · obtain rfl := List.mem_singleton.1 hp
      exact ⟨_, getIpFromOpts_hostOpts⟩
  · rw [hhosts] at hk
    rcases OrdDict.mem_keys_insert.1 hk with rfl | hk
    · exact AddArg.head?_append hpre
    · exact hs.letter k hk
  · rw [hhosts] at hm
    rw [hid] at hi
    rcases OrdDict.mem_keys_insert.1 hm with he | hm
    · exact absurd (generatedName_injective he) (by omega)
    · exact hs.fresh i (by omega) hm
  · rw [hhosts] at hk
    rcases OrdDict.mem_keys_insert.1 hk with rfl | hk
    · exact ⟨_, getHostId_generatedName hdot s.nextHostId⟩
    · exact hs.ids k hk hp
  · rw [hip, Option.some.injEq] at hip'
    exact carriesIp_iff.2
      ⟨_, by rw [hitems]; exact List.mem_append_right _ (.head _), by simp [hip']⟩

/-- An address in both runs: the first stores it unless a host carries it, the second finds it. -/
theorem ipArgument_twice (hreal : env.useRealHostname = false) (hdot : '.' ∉ env.hostPrefix.toList)
    (hpre : StartsWithLetter env env.hostPrefix) (hs : Adding env s)
    (hdigit : host.toList.head?.any env.chars.isdigit = true)
    (h : argument env s host = .ok s') :
    Adding env s' ∧ (∃ new, s'.allHosts.items = s.allHosts.items ++ new) ∧
      Again env [host] s s' := by
  rw [AddArg.argument_of_digit hdigit, ipArgument, bind_eq_ok] at h
  obtain ⟨⟨ip, accessIp⟩, hparts, h⟩ := h
  have hunnamed : existsHostname s.allHosts host = false :=
    decide_eq_false fun hm => not_startsWithLetter_of_digit hdigit (hs.letter host hm)
  simp only [hunnamed, existsIp_eq hs.ips, ok_bind, Bool.false_eq_true, if_false, pure_eq_ok] at h
  have hagain : s'.ip = some ip → carriesIp s'.allHosts ip = true → Again env [host] s s' := by
    intro hip hc t hsub hips _
    have hct := carriesIp_mono hsub hc
    refine ⟨{ t with ip := some ip, accessIp := some accessIp }, ?_, rfl, hip.symm⟩
    rw [List.foldlM_cons, AddArg.argument_of_digit hdigit, ipArgument, hparts, ok_bind]
    simp only [existsIp_eq hips, hct, ok_bind, pure_eq_ok, if_true, ite_self]
    rfl
  cases hc : carriesIp s.allHosts ip with
  | true =>
    rw [hc] at h
    cases h
    refine ⟨⟨hs.ips, hs.letter, hs.fresh, hs.ids, ?_⟩, ⟨[], by simp⟩, hagain rfl hc⟩
    rintro _ ⟨⟩
    exact hc
  | false =>
    simp only [hc, Bool.false_eq_true, if_false, nextHost, hreal, pure_eq_ok, ok_bind] at h
    cases h
    obtain ⟨hadding, hitems⟩ := hs.insert (t := { s with
      allHosts := s.allHosts.insert (generatedName env s.nextHostId) (hostOpts accessIp ip)
      nextHostId := s.nextHostId + 1, ip := some ip, accessIp := some accessIp }) hdot hpre rfl rfl
        rfl
    exact ⟨hadding, ⟨_, hitems⟩, hagain rfl (hadding.ip ip rfl)⟩

/-- A name without an address of its own in both runs: it is skipped, since a host carries the
address that was read last. -/
theorem nameArgument_twice (hs : Adding env s) (hletter : StartsWithLetter env host)
    (hcomma : ',' ∉ host.toList) (h : argument env s host = .ok s') :
    s' = s ∧ Again env [host] s s' := by
  have hparts : ∀ s : Locals, nameParts s host = .ok s := fun s => if_neg hcomma
  rw [AddArg.argument_of_letter hletter, nameArgument, hparts, ok_bind] at h
  have hagain : (host ∈ s.allHosts.keys ∨ ∃ ip, s.ip = some ip ∧ carriesIp s.allHosts ip = true) →
      Again env [host] s s := by
    intro hskip t hsub hips hip
    refine ⟨t, ?_, rfl, hip⟩
    rw [List.foldlM_cons, AddArg.argument_of_letter hletter, nameArgument, hparts, ok_bind]
    rcases hskip with hm | ⟨ip, hsome, hc⟩
    · obtain ⟨p, hp, rfl⟩ := List.mem_map.1 hm
      have hex : existsHostname t.allHosts p.1 = true :=
        decide_eq_true (List.mem_map_of_mem (hsub p hp))
      rw [hex]
      rfl
    · simp only [hip, hsome, readLocal, existsIp_eq hips, carriesIp_mono hsub hc, ok_bind, if_true,
        pure_eq_ok, ite_self]
      rfl
  split at h
  · next hex =>
    cases h
    exact ⟨rfl, hagain (.inl (of_decide_eq_true hex))⟩
  · cases hip : s.ip with
    | none =>
      rw [hip] at h
      cases h
    | some ip =>
      have hc := hs.ip ip hip
      simp only [hip, readLocal, existsIp_eq hs.ips, hc, ok_bind, if_true, pure_eq_ok] at h
      cases h
      exact ⟨rfl, hagain (.inr ⟨ip, hip, hc⟩)⟩

/-- The loop passes over a text that is neither a deletion, an address nor a name. -/
theorem argument_other (hdel : ¬ IsDeletion host)
    (hdigit : ¬ host.toList.head?.any env.chars.isdigit = true)
    (hletter : ¬ StartsWithLetter env host) (hne : host.toList ≠ []) (t : Locals) :
    argument env t host = .ok t := by
  unfold StartsWithLetter at hletter
  unfold argument
  cases hl : host.toList with
  | nil => exact absurd hl hne
  | cons c cs =>
    rw [hl] at hdigit hletter
    have hdash : c ≠ '-' := fun hc => hdel (by rw [IsDeletion, hl, hc]; rfl)
    simp only [hdash, if_false]
    rw [if_neg (by simpa using hdigit), if_neg (by simpa using hletter)]
    rfl

/-- One argument in both runs. -/
theorem argument_twice (hreal : env.useRealHostname = false) (hdot : '.' ∉ env.hostPrefix.toList)
    (hpre : StartsWithLetter env env.hostPrefix) (hs : Adding env s) (ha : IsIpArg env host)
    (h : argument env s host = .ok s') :
    Adding env s' ∧ (∃ new, s'.allHosts.items = s.allHosts.items ++ new) ∧
      Again env [host] s s' := by
  by_cases hdigit : host.toList.head?.any env.chars.isdigit = true
  · exact ipArgument_twice hreal hdot hpre hs hdigit h
  by_cases hletter : StartsWithLetter env host
  · obtain ⟨rfl, hagain⟩ := nameArgument_twice hs hletter (ha.2 hletter) h
    exact ⟨hs, ⟨[], by simp⟩, hagain⟩
  · have hne : host.toList ≠ [] := by
      intro hl
      unfold argument at h
      rw [hl] at h
      cases h
    have hother := argument_other ha.1 hdigit hletter hne
    rw [hother] at h
    cases h
    refine ⟨hs, ⟨[], by simp⟩, fun t _ _ hip => ⟨t, ?_, rfl, hip⟩⟩
    rw [List.foldlM_cons, hother]
    rfl

/-- The loop in both runs: the second starts from the hosts that the first one leaves. -/
theorem loop_twice {args : List String} (hreal : env.useRealHostname = false)
    (hdot : '.' ∉ env.hostPrefix.toList) (hpre : StartsWithLetter env env.hostPrefix)
    (hs : Adding env s) (ha : ∀ text ∈ args, IsIpArg env text)
    (h : args.foldlM (argument env) s = .ok s') :
    Adding env s' ∧ (∃ new, s'.allHosts.items = s.allHosts.items ++ new) ∧ Again env args s s' := by
  induction args generalizing s with
  | nil =>
    cases h
    exact ⟨hs, ⟨[], by simp⟩, fun t _ _ hip => ⟨t, rfl, rfl, hip⟩⟩
  | cons host args ih =>
    rw [List.foldlM_cons, bind_eq_ok] at h
    obtain ⟨s₁, h₁, h⟩ := h
    obtain ⟨hs₁, ⟨new₁, hnew₁⟩, hagain₁⟩ :=
      argument_twice hreal hdot hpre hs (ha host (.head _)) h₁
    obtain ⟨hs', ⟨new, hnew⟩, hagain⟩ := ih hs₁ (fun text ht => ha text (.tail _ ht)) h
    refine ⟨hs', ⟨new₁ ++ new, by rw [hnew, hnew₁, List.append_assoc]⟩, fun t hsub hips hip => ?_⟩
    obtain ⟨t₁, ht₁, hhosts₁, hip₁⟩ := hagain₁ t
      (fun p hp => hsub p (by rw [hnew]; exact List.mem_append_left _ hp)) hips hip
    rw [← hhosts₁] at hsub hips
    obtain ⟨t', ht', hhosts, hip'⟩ := hagain t₁ hsub hips hip₁
    rw [List.foldlM_cons, bind_eq_ok] at ht₁
    obtain ⟨_, ht₁, ⟨⟩⟩ := ht₁
    exact ⟨t', by rw [List.foldlM_cons, ht₁, ok_bind, ht'], hhosts.trans hhosts₁, hip'⟩

end

/-! ## The run -/

section
variable {env : Env} {inv : Inventory} {args : List String} {file : ConfigFile} {cfg : Value}

/-- A run `add` loads the previous inventory. -/
theorem loadPreviousConfig_add {load : Bool} (h : loadPreviousConfig true args = .ok load) :
    load = true := by
  unfold loadPreviousConfig at h
  split at h
  · cases h
    rfl
  · split at h
    · cases h
    · cases h
      rfl

/-- The arguments of an addition build the host list from the loaded inventory. -/
theorem built_add {hosts : OrdDict String Value} {start : Value}
    (h : built env true args (.yaml inv.toValue) = .ok (start, hosts)) :
    ∃ changed highest s', range2ips env args = .ok changed ∧
      highestHostId env inv.hosts.keys = .ok highest ∧
      changed.foldlM (argument env) { allHosts := inv.hosts, nextHostId := highest + 1 } = .ok s' ∧
      start = inv.toValue ∧ hosts = s'.allHosts := by
  obtain ⟨load, changed, highest, s', hload, hstart, hr, hh, hloop, hhosts⟩ :=
    built_eq_ok (.yaml inv) h
  obtain rfl := loadPreviousConfig_add hload
  exact ⟨changed, highest, s', hr, hh, hloop, hstart, hhosts⟩

/-- Without a file there is nothing to add to. -/
theorem built_add_absent {r : Value × OrdDict String Value} :
    built env true args .absent ≠ .ok r := by
  intro h
  simp only [built, bind_eq_ok] at h
  obtain ⟨load, hload, start, hstart, -⟩ := h
  obtain rfl := loadPreviousConfig_add hload
  cases hstart

/-- Conversely, a loop that returns builds its host list. -/
theorem built_add_of_loop {changed : List String} {s' : Locals} {inv' : Inventory}
    {r : Value × OrdDict String Value} (h : built env true args (.yaml inv'.toValue) = .ok r)
    (hr : range2ips env args = .ok changed) (highest : Nat)
    (hh : highestHostId env inv.hosts.keys = .ok highest)
    (hloop : changed.foldlM (argument env)
      { allHosts := inv.hosts, nextHostId := highest + 1 } = .ok s') :
    built env true args (.yaml inv.toValue) = .ok (inv.toValue, s'.allHosts) := by
  have hne := ne_nil_of_built h
  have hstart : startConfig true (.yaml inv.toValue) = .ok inv.toValue :=
    ensureRequiredGroups_toValue inv
  have hbuild : buildHostnames env changed true inv.toValue = .ok s'.allHosts :=
    buildHostnames_eq_ok.2 ⟨_, s', (initialLocals_eq_ok (getPath_hosts inv)).2 ⟨highest, hh, rfl⟩,
      hloop, rfl⟩
  simp only [built, bind_eq_ok] at h
  obtain ⟨load, hload, -⟩ := h
  obtain rfl := loadPreviousConfig_add hload
  simp only [built, hload, hstart, hr, hbuild, ok_bind, List.isEmpty_eq_false_iff.2 hne,
    Bool.false_eq_true, if_false, pure_eq_ok]

/-- The second run of an addition that has written an inventory builds the host list of the first
run again. -/
theorem add_twice (hreal : env.useRealHostname = false) (hdot : '.' ∉ env.hostPrefix.toList)
    (hpre : StartsWithLetter env env.hostPrefix) (hw : inv.WellFormed)
    (hnames : ∀ k ∈ inv.hosts.keys, StartsWithLetter env k) (ha : ∀ text ∈ args, IsIpArg env text)
    (h : run env ("add" :: args) (.yaml inv.toValue) = (.ok (), file)) :
    run env ("add" :: args) file = (.ok (), file) := by
  obtain ⟨start, hosts, w, hb, hw', rfl⟩ := run_eq_ok.1 h
  obtain ⟨changed, highest, s', hr, hh, hloop, rfl, rfl⟩ := built_add hb
  rw [setGroups_toValue] at hw'
  cases hw'
  have hchanged : ∀ text ∈ changed, IsIpArg env text := by
    intro text ht
    rcases mem_of_mem_range2ips hr ht with ht | ⟨hcomma, hdel⟩
    · exact ha text ht
    · exact ⟨hdel, fun _ => hcomma⟩
  have hs : Adding env { allHosts := inv.hosts, nextHostId := highest + 1 } := by
    refine ⟨hasIps_of_opts hw.opts, hnames, fun i hi => generatedName_not_mem hdot hh hi,
      highestHostId_isOk.1 ⟨highest, hh⟩, ?_⟩
    rintro _ ⟨⟩
  obtain ⟨hs', ⟨new, hnew⟩, hagain⟩ := loop_twice hreal hdot hpre hs hchanged hloop
  have hhosts : (inv.place env s'.allHosts).hosts = s'.allHosts := by
    have hkeep : inv.hosts.filter (Inventory.keeps s'.allHosts) = inv.hosts := by
      refine OrdDict.filter_eq_self fun k hk => Inventory.keeps_iff.2 (.inl ?_)
      rw [OrdDict.keys_of_items_eq_append hnew]
      exact List.mem_append_left _ hk
    rw [Inventory.place_hosts, hkeep]
    exact OrdDict.insertAll_of_items_eq_append hnew
  obtain ⟨highest', hh'⟩ := highestHostId_isOk.2 hs'.ids
  obtain ⟨t', ht', ht, -⟩ := hagain { allHosts := s'.allHosts, nextHostId := highest' + 1 }
    (fun _ hp => hp) hs'.ips rfl
  have hb' : builds env ("add" :: args) (.yaml (inv.place env s'.allHosts).toValue) =
      .ok ((inv.place env s'.allHosts).toValue, s'.allHosts) := by
    rw [← show t'.allHosts = s'.allHosts from ht]
    refine built_add_of_loop hb hr highest' ?_ ?_
    · rw [ht, hhosts]
      exact hh'
    · rw [ht, hhosts]
      exact ht'
  have hrun := run_of_builds hb'
  rwa [Inventory.place_place] at hrun

/-- A run that does not return leaves the file of an addition as it was. -/
theorem run_add_error {e : Exc} {file' : ConfigFile}
    (h : run env ("add" :: args) file = (.error e, file')) : file' = file := by
  have hrun : run env ("add" :: args) file = (writeUpdated env true args).exec file := rfl
  rw [hrun, exec_writeUpdated] at h
  split at h
  · cases h
  · cases h
    rfl

/-- On every file that runs reach, an addition of addresses has the same outcome when it is run a
second time, and leaves the file exactly as the first run left it. -/
theorem add_again {outcome : Except Exc Unit} {file' : ConfigFile}
    (hr : (builder env).Reachable file) (hreal : env.useRealHostname = false)
    (hdot : '.' ∉ env.hostPrefix.toList) (hpre : StartsWithLetter env env.hostPrefix)
    (ha : ∀ text ∈ args, IsIpArg env text)
    (h : run env ("add" :: args) file = (outcome, file')) :
    run env ("add" :: args) file' = (outcome, file') := by
  cases outcome with
  | error e =>
    obtain rfl := run_add_error h
    exact h
  | ok u =>
    obtain ⟨start, hosts, w, hb, -⟩ := run_eq_ok.1 h
    obtain ⟨inv, hf, hw⟩ := reachable_holds hr
    cases hf with
    | absent => exact absurd hb built_add_absent
    | yaml inv =>
      obtain ⟨inv', he, hw', hnames⟩ := reachable_invariant
        (P := fun inv => ∀ k ∈ inv.hosts.keys, StartsWithLetter env k)
        (fun _ hk => absurd hk List.not_mem_nil)
        (fun _ _ _ h hbuilt => place_startsWithLetter hreal hpre hbuilt h) hr
      rw [he] at h
      exact add_twice hreal hdot hpre hw' hnames ha h

end

/-- Three addresses, of which one is there, are added to two hosts, and added again. -/
theorem add_again_two_hosts : ∃ cfg cfg',
    run {} ["10.0.0.1", "10.0.0.2"] .absent = (.ok (), .yaml cfg) ∧
    run {} ["add", "10.0.0.3", "10.0.0.2", "10.0.0.4"] (.yaml cfg) = (.ok (), .yaml cfg') ∧
    run {} ["add", "10.0.0.3", "10.0.0.2", "10.0.0.4"] (.yaml cfg') = (.ok (), .yaml cfg') := by
  let inv := Inventory.fresh.place {} ⟨[("node1", hostOpts "10.0.0.1" "10.0.0.1"),
    ("node2", hostOpts "10.0.0.2" "10.0.0.2")], by decide⟩
  have hb : builds {} ["10.0.0.1", "10.0.0.2"] .absent =
      .ok (Inventory.fresh.toValue, ⟨[("node1", hostOpts "10.0.0.1" "10.0.0.1"),
        ("node2", hostOpts "10.0.0.2" "10.0.0.2")], by decide⟩) := rfl
  have hb' : builds {} ["add", "10.0.0.3", "10.0.0.2", "10.0.0.4"] (.yaml inv.toValue) =
      .ok (inv.toValue, ⟨[("node1", hostOpts "10.0.0.1" "10.0.0.1"),
        ("node2", hostOpts "10.0.0.2" "10.0.0.2"), ("node3", hostOpts "10.0.0.3" "10.0.0.3"),
        ("node4", hostOpts "10.0.0.4" "10.0.0.4")], by decide⟩) := rfl
  have ha : ∀ text ∈ ["10.0.0.3", "10.0.0.2", "10.0.0.4"], IsIpArg {} text := by
    intro text ht
    simp only [List.mem_cons, List.not_mem_nil, or_false] at ht
    rcases ht with rfl | rfl | rfl
    all_goals exact ⟨by decide, fun _ => by decide⟩
  exact ⟨_, _, run_of_builds hb, run_of_builds hb', add_again (.step (.init rfl) (run_of_builds hb))
    rfl (by decide) (rfl : StartsWithLetter {} "node") ha (run_of_builds hb')⟩

end Kubespray
