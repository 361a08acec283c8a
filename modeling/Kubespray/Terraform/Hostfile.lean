import Kubespray.Lib.HostsFile
import Kubespray.Terraform.Queries

/-!
# The hosts file, and the order of the state files

`query_hostfile` of `contrib/terraform/terraform.py` prints the hosts as lines for `/etc/hosts`.
What is looked up in these lines is what `query_host` has for `ansible_host` (`hostfile_lookup`):
both take the first tuple of a name, and compare names as they are written.

The state files are found in the order of the directory. If the collection is well formed, no answer
depends on it but for the order of the hosts in a group, and of the lines (`order_independent`).
-/

open Py
open HostsFile (HostsWord hostsWords addressOf namesOf lookupHost)

namespace Terraform

/-! ## The lines -/

/-- `s.ljust(width)`. -/
def ljust (width : Nat) (s : String) : String :=
  String.ofList (s.toList ++ List.replicate (width - s.length) ' ')

/-- The line of a tuple. -/
def hostfileLine (host : Host) : Except Exc String := do
  match ← (Value.dict host.attrs).getItem "ansible_host" with
  | .str address => return ljust 16 address ++ "\t" ++ host.name
  | _ => throw .attributeError

/-- `query_hostfile`. -/
def queryHostfile (hosts : List Host) : Except Exc String := do
  let out ← hosts.mapM hostfileLine
  return "\n".intercalate (["## begin hosts generated by terraform.py ##"] ++ out ++
    ["## end hosts generated by terraform.py ##"])

/-- The address that `query_host` has for a name. -/
def hostAddress (hosts : List Host) (name : String) : Option String :=
  match Assoc.lookup "ansible_host" (queryHost hosts name) with
  | some (.str address) => some address
  | _ => none

/-- The text can stand as a word on a line. -/
def IsWord (s : String) : Prop := ∃ w : HostsWord, w.text = s

/-- The name of the tuple and its address are words. -/
def Host.Writable (host : Host) : Prop :=
  IsWord host.name ∧ ∀ address, Assoc.lookup "ansible_host" host.attrs = some (.str address) →
    IsWord address

section
variable {host : Host} {hosts : List Host} {line name address : String}

theorem hostfileLine_eq_ok : hostfileLine host = .ok line ↔
    ∃ address, Assoc.lookup "ansible_host" host.attrs = some (.str address) ∧
      line = ljust 16 address ++ "\t" ++ host.name := by
  rw [hostfileLine, Value.getItem_dict]
  cases Assoc.lookup "ansible_host" host.attrs with
  | none => simp
  | some value =>
    rw [ok_bind]
    cases value <;> simp [eq_comm]

/-- The words of a line. -/
theorem hostsWords_hostfileLine (w v : HostsWord) :
    hostsWords (ljust 16 w.text ++ "\t" ++ v.text) = [w.text, v.text] := by
  have hcomment : '#' ∉ (ljust 16 w.text ++ "\t" ++ v.text).toList := by
    simp [ljust, w.no_comment, v.no_comment]
  have hpad : ∀ n, Fields.fields (String.ofList (w.text.toList ++ List.replicate n ' ')) =
      [w.text] := by
    intro n
    induction n with
    | zero =>
      rw [List.replicate_zero, List.append_nil, String.ofList_toList]
      exact HostsFile.fields_word w
    | succ n ih =>
      have hsucc : String.ofList (w.text.toList ++ List.replicate (n + 1) ' ') =
          String.ofList (w.text.toList ++ List.replicate n ' ') ++ String.singleton ' ' ++ "" := by
        rw [← String.toList_inj, List.replicate_succ']
        simp
      rw [hsucc, Fields.fields_append_blank rfl, ih, Fields.fields_empty, List.append_nil]
  have hfields := @Fields.fields_append_blank (ljust 16 w.text) v.text '\t' rfl
  rw [ljust, hpad, HostsFile.fields_word v] at hfields
  rw [hostsWords, HostsFile.withoutComment_of_not_mem hcomment]
  exact hfields

/-- A line has no end of a line in it. -/
theorem not_newline_hostfileLine (w v : HostsWord) :
    '\n' ∉ (ljust 16 w.text ++ "\t" ++ v.text).toList := by
  intro hc
  have hnot : ∀ u : HostsWord, '\n' ∉ u.text.toList := fun u hin => by
    cases u.one_line _ hin
  simp [ljust, hnot] at hc

/-- What is looked up in the lines of the tuples. -/
theorem lookupHost_out {out : List String} (hwritable : ∀ host ∈ hosts, host.Writable)
    (h : List.Forall₂ (fun host line => hostfileLine host = .ok line) hosts out) (name : String) :
    lookupHost id out name = hostAddress hosts name := by
  induction h with
  | nil => rfl
  | @cons host line hosts out hline _ ih =>
    rw [List.forall_mem_cons] at hwritable
    obtain ⟨address, haddress, rfl⟩ := hostfileLine_eq_ok.1 hline
    obtain ⟨⟨v, hv⟩, hword⟩ := hwritable.1
    obtain ⟨w, rfl⟩ := hword address haddress
    have hwords := hostsWords_hostfileLine w v
    rw [hv] at hwords
    rw [lookupHost, List.find?_cons, hostAddress, queryHost, List.find?_cons, HostsFile.shows,
      namesOf, hwords]
    by_cases hname : host.name = name
    · subst hname
      simp [addressOf, hwords, haddress]
    · have hrest := ih hwritable.2
      rw [lookupHost, hostAddress, queryHost] at hrest
      simpa [hname, Ne.symm hname] using hrest

/-- What is looked up in the hosts file is what `query_host` has for `ansible_host`. Names are
compared as they are written, as `query_host` does. -/
theorem hostfile_lookup {text : String} (hwritable : ∀ host ∈ hosts, host.Writable)
    (h : queryHostfile hosts = .ok text) (name : String) :
    lookupHost id (Py.split '\n' text) name = hostAddress hosts name := by
  obtain ⟨out, hout, htext⟩ := bind_eq_ok.1 h
  cases htext
  have hlines := mapM_eq_ok_iff.1 hout
  have hnewline : ∀ line ∈ out, '\n' ∉ line.toList := by
    intro line hline
    obtain ⟨host, hhost, heq⟩ := exists_of_mapM_eq_ok hout hline
    obtain ⟨address, haddress, rfl⟩ := hostfileLine_eq_ok.1 heq
    obtain ⟨⟨v, hv⟩, hword⟩ := hwritable host hhost
    obtain ⟨w, rfl⟩ := hword address haddress
    rw [← hv]
    exact not_newline_hostfileLine w v
  have hsplit : Py.split '\n' ("\n".intercalate (["## begin hosts generated by terraform.py ##"] ++
      out ++ ["## end hosts generated by terraform.py ##"])) =
      ["## begin hosts generated by terraform.py ##"] ++ out ++
        ["## end hosts generated by terraform.py ##"] := by
    refine Py.split_intercalate (by simp) fun line hline => ?_
    rw [List.mem_append, List.mem_append, List.mem_singleton, List.mem_singleton] at hline
    rcases hline with (rfl | hline) | rfl
    · decide
    · exact hnewline line hline
    · decide
  have hcomments : namesOf "## begin hosts generated by terraform.py ##" = [] ∧
      namesOf "## end hosts generated by terraform.py ##" = [] := by
    decide +kernel
  rw [hsplit, ← lookupHost_out hwritable hlines name, lookupHost, lookupHost, List.find?_append,
    List.find?_append]
  simp [HostsFile.shows, hcomments]

end

/-! ## The order of the resources -/

/-- The hosts that `main` answers with. -/
def mainHosts (F : Format) (resources : List Entry) : Except Exc (List Host) := do
  let ips ← iterips resources
  iterhosts F (secondPass ips) resources

/-- The output for `--list` is made of them. -/
theorem inventory_eq (F : Format) (resources : List Entry) :
    inventory F resources = (mainHosts F resources).map queryList := by
  rw [inventory, mainHosts]
  cases iterips resources with
  | error e => rfl
  | ok ips =>
    rw [ok_bind, ok_bind]
    cases iterhosts F (secondPass ips) resources <;> rfl

section
variable {F : Format} {resources resources' : List Entry} {host : Host} {hosts hosts' : List Host}
  {name group : String}

/-- A loop over the same elements in another order does the same in another order. -/
theorem mapM_perm {α β : Type} {f : α → Except Exc β} {l l' : List α} {r : List β}
    (hperm : l'.Perm l) (h : l.mapM f = .ok r) : ∃ r', l'.mapM f = .ok r' ∧ r'.Perm r := by
  obtain ⟨r', hr', hperm'⟩ := List.perm_comp_forall₂ hperm (mapM_eq_ok_iff.1 h)
  exact ⟨r', mapM_eq_ok_iff.2 hr', hperm'⟩

theorem WellFormed.perm (h : WellFormed F resources) (hperm : resources'.Perm resources) :
    WellFormed F resources' where
  typed e he := h.typed e (hperm.subset he)
  parsed e he := h.parsed e (hperm.subset he)
  port e he := h.port e (hperm.subset he)
  associated e he := h.associated e (hperm.subset he)
  names := ((hperm.filterMap _).map _).nodup_iff.2 h.names
  ports := ((hperm.filterMap _).map _).nodup_iff.2 h.ports

/-- The second pass looks floating IPs up, and so does not see their order. -/
theorem secondPass_perm {ips ips' : Flat} (hperm : ips'.Perm ips) (hnd : (Assoc.keys ips).Nodup) :
    secondPass ips' = secondPass ips := by
  have hlookup : ∀ port, Assoc.lookup port ips' = Assoc.lookup port ips := by
    intro port
    cases hport : Assoc.lookup port ips with
    | none =>
      rw [Assoc.lookup_eq_none] at hport ⊢
      exact fun hin => hport ((hperm.map _).subset hin)
    | some ip =>
      have hnd' : (Assoc.keys ips').Nodup := (hperm.map _).nodup_iff.2 hnd
      exact Assoc.lookup_of_mem hnd' (hperm.mem_iff.2 (Assoc.mem_of_lookup hport))
  have hempty : ips'.isEmpty = ips.isEmpty := by
    rw [Bool.eq_iff_iff, List.isEmpty_iff, List.isEmpty_iff, ← List.length_eq_zero_iff,
      hperm.length_eq, List.length_eq_zero_iff]
  have hfloating : floatingIp ips' = floatingIp ips := by
    funext port
    cases port <;> simp [floatingIp, hlookup]
  have hiter : iterHostIps ips' = iterHostIps ips := by
    funext host
    unfold iterHostIps
    rw [hfloating]
  rw [secondPass, secondPass, hempty, hiter]

/-- The name of a host stays. -/
theorem name_secondPass {ips : Flat} {host' : Host} (h : secondPass ips host = .ok host') :
    host'.name = host.name := by
  rw [secondPass] at h
  split at h
  · cases h
    rfl
  · exact name_iterHostIps h

/-- Of hosts with distinct names `query_host` finds each. -/
theorem queryHost_of_mem (hnd : (hosts.map Host.name).Nodup) (hhost : host ∈ hosts) :
    queryHost hosts host.name = host.attrs := by
  obtain ⟨first, hfirst, hname⟩ := exists_first hhost
  obtain ⟨pre, post, heq, -⟩ := id hfirst
  have hmem : first ∈ hosts := by rw [heq]; simp
  obtain rfl := List.inj_on_of_nodup_map hnd hmem hhost hname
  exact queryHost_eq hfirst

theorem queryHost_perm (hperm : hosts'.Perm hosts) (hnd : (hosts.map Host.name).Nodup)
    (name : String) : queryHost hosts' name = queryHost hosts name := by
  by_cases h : ∃ host ∈ hosts, host.name = name
  · obtain ⟨host, hhost, rfl⟩ := h
    rw [queryHost_of_mem hnd hhost, queryHost_of_mem ((hperm.map _).nodup_iff.2 hnd)
      (hperm.mem_iff.2 hhost)]
  · push Not at h
    rw [(vars_of_not_mem h).2, (vars_of_not_mem fun host hh => h host (hperm.mem_iff.1 hh)).2]

/-- With distinct names both answers have the same variables. -/
theorem hostVars_of_nodup (hnd : (hosts.map Host.name).Nodup) (name : String) :
    hostVars (queryList hosts) name = .dict (queryHost hosts name) := by
  by_cases h : ∃ host ∈ hosts, host.name = name
  · obtain ⟨host, hhost, rfl⟩ := h
    obtain ⟨last, hlast, hname⟩ := exists_last hhost
    obtain ⟨pre, post, heq, -⟩ := id hlast
    have hmem : last ∈ hosts := by rw [heq]; simp
    obtain rfl := List.inj_on_of_nodup_map hnd hmem hhost hname
    rw [hostVars_eq hlast, queryHost_of_mem hnd hhost]
  · obtain ⟨hvars, hquery⟩ := vars_of_not_mem fun host hhost hname => h ⟨host, hhost, hname⟩
    rw [hvars, hquery]

theorem groupHosts_perm (hperm : hosts'.Perm hosts) (hne : group ≠ "_meta") :
    (groupHosts (queryList hosts') group).Perm (groupHosts (queryList hosts) group) := by
  rw [groupHosts_queryList hne, groupHosts_queryList hne]
  exact (hperm.flatMap_right _).map _

/-- State files in another order give the same variables, the same hosts in every group and the
same lines of the hosts file, if they give anything. -/
theorem order_independent (h : WellFormed F resources) (hperm : resources'.Perm resources)
    (hhosts : mainHosts F resources = .ok hosts) :
    ∃ hosts' list list', mainHosts F resources' = .ok hosts' ∧
      inventory F resources = .ok list ∧ inventory F resources' = .ok list' ∧
      (∀ name, queryHost hosts' name = queryHost hosts name) ∧
      (∀ name, hostVars list' name = hostVars list name) ∧
      (∀ group, group ≠ "_meta" → (groupHosts list' group).Perm (groupHosts list group)) ∧
      ∀ out, hosts.mapM hostfileLine = .ok out →
        ∃ out', hosts'.mapM hostfileLine = .ok out' ∧ out'.Perm out := by
  have h' := h.perm hperm
  have hsecond := hhosts
  rw [mainHosts, iterips_eq h, ok_bind, iterhosts_eq h] at hsecond
  obtain ⟨hosts', hsecond', hperm'⟩ := mapM_perm (hperm.filterMap (hostOf F)) hsecond
  have hnd : (hosts.map Host.name).Nodup := by
    rw [map_of_mapM_eq_ok (fun _ _ => name_secondPass) hsecond]
    exact h.names
  have hhosts' : mainHosts F resources' = .ok hosts' := by
    rw [mainHosts, iterips_eq h', ok_bind, iterhosts_eq h',
      secondPass_perm (hperm.filterMap associationOf) h.ports]
    exact hsecond'
  have hlists : inventory F resources = .ok (queryList hosts) ∧
      inventory F resources' = .ok (queryList hosts') := by
    rw [inventory_eq, inventory_eq, hhosts, hhosts']
    exact ⟨rfl, rfl⟩
  refine ⟨hosts', queryList hosts, queryList hosts', hhosts', hlists.1, hlists.2,
    queryHost_perm hperm' hnd, fun name => ?_, fun group hne => groupHosts_perm hperm' hne,
    fun out hout => mapM_perm hperm' hout⟩
  rw [hostVars_of_nodup hnd, hostVars_of_nodup ((hperm'.map _).nodup_iff.2 hnd),
    queryHost_perm hperm' hnd]

end

/-- An association that is read before its instance. -/
theorem order_independent_association :
    ∃ hosts', mainHosts exampleFormat [exampleAssociation, exampleVm "1"] = .ok hosts' ∧
      Assoc.lookup "ansible_host" (queryHost hosts' "vm") = some (.str "10.0.0.1") := by
  have hwf : WellFormed exampleFormat [exampleVm "1", exampleAssociation] :=
    wellFormed_example (show parserOf (exampleVm "1") = some openstackHost from rfl) rfl
      (fun _ h => by cases h; trivial) (List.Sublist.refl _)
  obtain ⟨hosts, hhosts, hvm⟩ : ∃ hosts,
      mainHosts exampleFormat [exampleVm "1", exampleAssociation] = .ok hosts ∧
        Assoc.lookup "ansible_host" (queryHost hosts "vm") = some (.str "10.0.0.1") :=
    ⟨_, rfl, rfl⟩
  obtain ⟨hosts', _, _, hhosts', -, -, hquery, -⟩ := order_independent hwf (.swap _ _ []) hhosts
  exact ⟨hosts', hhosts', by rw [hquery, hvm]⟩

/-- Two tuples of one name. -/
theorem hostfile_lookup_repeated :
    let hosts : List Host := [⟨"vm", [("ansible_host", .str "10.0.0.1")], []⟩,
      ⟨"vm", [("ansible_host", .str "10.0.0.2")], []⟩]
    ∃ text, queryHostfile hosts = .ok text ∧
      lookupHost id (Py.split '\n' text) "vm" = some "10.0.0.1" := by
  intro hosts
  have hvm : IsWord "vm" := ⟨{ text := "vm" }, rfl⟩
  have hwritable : ∀ host ∈ hosts, host.Writable := by
    intro host hhost
    rcases List.mem_pair.1 hhost with rfl | rfl
    · refine ⟨hvm, fun address h => ?_⟩
      cases h
      exact ⟨{ text := "10.0.0.1" }, rfl⟩
    · refine ⟨hvm, fun address h => ?_⟩
      cases h
      exact ⟨{ text := "10.0.0.2" }, rfl⟩
  obtain ⟨text, htext⟩ : ∃ text, queryHostfile hosts = .ok text := ⟨_, rfl⟩
  exact ⟨text, htext, (hostfile_lookup hwritable htext "vm").trans rfl⟩

end Terraform
