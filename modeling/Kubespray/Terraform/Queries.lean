import Kubespray.Terraform.Pipeline
import Mathlib.Data.List.Dedup

/-!
# The answers for one host and for all hosts

`query_host` and `query_list` of `contrib/terraform/terraform.py` over one list of host tuples.
Names may repeat: `query_host` takes the first tuple of a name, `query_list` keeps the variables of
the last one and appends the name to the groups of each. `queries_agree_iff` says when the two
answers are equal and no group has a name twice. Variables are compared by `==` (`Value.pyEq`), for
any comparison of scalars.
-/

open Py

namespace Terraform

/-- `query_host`. -/
def queryHost (hosts : List Host) (target : String) : Flat :=
  match hosts.find? (·.name = target) with
  | some host => host.attrs
  | none => []

/-- The variables of a host in the output for `--list`; a host that is not there has none. -/
def hostVars (inventory : Value) (name : String) : Value :=
  match inventory.getPath ["_meta", "hostvars", name] with
  | .ok attrs => attrs
  | .error _ => .dict []

/-- The hosts of a group in the output for `--list`; a group that is not there has none. -/
def groupHosts (inventory : Value) (group : String) : List Value :=
  match inventory.getPath [group, "hosts"] with
  | .ok (.list hosts) => hosts
  | _ => []

/-- Both answers give each name equal variables, no group has a name twice, and a name is in a
group iff a tuple says so. -/
structure QueriesAgree (scalar : Value → Value → Bool) (hosts : List Host) : Prop where
  vars : ∀ name,
    (hostVars (queryList hosts) name).pyEq scalar (.dict (queryHost hosts name)) = true
  nodup : ∀ group, group ≠ "_meta" → (groupHosts (queryList hosts) group).Nodup
  member : ∀ group name, group ≠ "_meta" →
    (.str name ∈ groupHosts (queryList hosts) group ↔
      ∃ host ∈ hosts, host.name = name ∧ ∃ g ∈ host.groups, groupName g = group)

/-- The first tuple of its name. -/
def FirstOfName (hosts : List Host) (host : Host) : Prop :=
  ∃ pre post, hosts = pre ++ host :: post ∧ ∀ h ∈ pre, h.name ≠ host.name

/-- The last tuple of its name. -/
def LastOfName (hosts : List Host) (host : Host) : Prop :=
  ∃ pre post, hosts = pre ++ host :: post ∧ ∀ h ∈ post, h.name ≠ host.name

/-- Two tuples with one name are in different groups. -/
def Apart (a b : Host) : Prop :=
  a.name = b.name → ∀ g ∈ a.groups, ∀ g' ∈ b.groups, groupName g ≠ groupName g'

section
variable {scalar : Value → Value → Bool} {hosts : List Host} {host : Host} {name group : String}

/-! ## Variables -/

/-- What `query_host` returns for a name. -/
theorem queryHost_eq (h : FirstOfName hosts host) : queryHost hosts host.name = host.attrs := by
  obtain ⟨pre, post, rfl, hpre⟩ := h
  have hnone : pre.find? (·.name = host.name) = none :=
    List.find?_eq_none.2 fun h hh => by simpa using hpre h hh
  rw [queryHost, List.find?_append, hnone, Option.none_or, List.find?_cons_of_pos (by simp)]

/-- The `hostvars` of `query_list`. -/
def metaVars (hosts : List Host) : List (String × Value) :=
  Assoc.insertAll [] (hosts.map fun host => (host.name, Value.dict host.attrs))

theorem getPath_hostvars :
    (queryList hosts).getPath ["_meta", "hostvars", name] =
      Value.getItem (.dict (metaVars hosts)) name := by
  simp only [queryList, metaVars, Value.getPath_cons, Value.getItem_dict,
    Assoc.lookup_insert_self, ok_bind, Assoc.lookup_cons, if_pos]
  split <;> rfl

/-- What `query_list` stores for a name. -/
theorem hostVars_eq (h : LastOfName hosts host) :
    hostVars (queryList hosts) host.name = .dict host.attrs := by
  obtain ⟨pre, post, rfl, hpost⟩ := h
  have hnot : host.name ∉ Assoc.keys (post.map fun h => (h.name, Value.dict h.attrs)) := by
    rw [Assoc.keys, List.map_map, List.mem_map]
    rintro ⟨h, hh, he⟩
    exact hpost h hh he
  have hlookup : Assoc.lookup host.name (metaVars (pre ++ host :: post)) =
      some (.dict host.attrs) := by
    rw [metaVars, List.map_append, List.map_cons, ← Assoc.insertAll_insertAll,
      Assoc.insertAll_cons, Assoc.lookup_insertAll_of_not_mem hnot, Assoc.lookup_insert_self]
  rw [hostVars, getPath_hostvars, Value.getItem_dict, hlookup]

/-- Neither answer has variables for a name without a tuple. -/
theorem vars_of_not_mem (h : ∀ host ∈ hosts, host.name ≠ name) :
    hostVars (queryList hosts) name = .dict [] ∧ queryHost hosts name = [] := by
  have hnone : hosts.find? (·.name = name) = none :=
    List.find?_eq_none.2 fun host hh => by simpa using h host hh
  have hnot : name ∉ Assoc.keys (hosts.map fun h => (h.name, Value.dict h.attrs)) := by
    rw [Assoc.keys, List.map_map, List.mem_map]
    rintro ⟨host, hh, he⟩
    exact h host hh he
  constructor
  · rw [hostVars, getPath_hostvars, Value.getItem_dict, metaVars,
      Assoc.lookup_insertAll_of_not_mem hnot]
    rfl
  · rw [queryHost, hnone]

/-- Every name with a tuple has a first and a last one. -/
theorem exists_first (h : host ∈ hosts) :
    ∃ first, FirstOfName hosts first ∧ first.name = host.name := by
  induction hosts with
  | nil => cases h
  | cons a hosts ih =>
    by_cases ha : a.name = host.name
    · exact ⟨a, ⟨[], hosts, rfl, nofun⟩, ha⟩
    · have hmem : host ∈ hosts := (List.mem_cons.1 h).resolve_left fun he => ha (by rw [he])
      obtain ⟨first, ⟨pre, post, rfl, hpre⟩, hname⟩ := ih hmem
      refine ⟨first, ⟨a :: pre, post, rfl, fun b hb => ?_⟩, hname⟩
      rcases List.mem_cons.1 hb with rfl | hb
      · rw [hname]
        exact ha
      · exact hpre b hb

theorem exists_last (h : host ∈ hosts) :
    ∃ last, LastOfName hosts last ∧ last.name = host.name := by
  obtain ⟨last, ⟨pre, post, hrev, hpre⟩, hname⟩ := exists_first (List.mem_reverse.2 h)
  refine ⟨last, ⟨post.reverse, pre.reverse, ?_, fun b hb => hpre b (List.mem_reverse.1 hb)⟩, hname⟩
  rw [← List.reverse_reverse hosts, hrev]
  simp

/-- The variables agree iff those of the first and the last tuple of each name are equal. -/
theorem vars_agree_iff :
    (∀ name, (hostVars (queryList hosts) name).pyEq scalar (.dict (queryHost hosts name)) = true) ↔
      ∀ first last, FirstOfName hosts first → LastOfName hosts last → first.name = last.name →
        (Value.dict last.attrs).pyEq scalar (.dict first.attrs) = true := by
  constructor
  · intro h first last hfirst hlast hname
    have hvars := h last.name
    rwa [hostVars_eq hlast, ← hname, queryHost_eq hfirst] at hvars
  · intro h name
    by_cases hmem : ∃ host ∈ hosts, host.name = name
    · obtain ⟨host, hh, rfl⟩ := hmem
      obtain ⟨first, hfirst, hfname⟩ := exists_first hh
      obtain ⟨last, hlast, hlname⟩ := exists_last hh
      have hattrs := h first last hfirst hlast (hfname.trans hlname.symm)
      rwa [← hlname, hostVars_eq hlast, hlname, ← hfname, queryHost_eq hfirst]
    · obtain ⟨hvars, hhost⟩ := vars_of_not_mem fun host hh hname => hmem ⟨host, hh, hname⟩
      rw [hvars, hhost]
      rfl

/-! ## Groups -/

/-- The hosts of a group. -/
def membersOf (groups : List (String × List String)) (group : String) : List String :=
  (Assoc.lookup group groups).getD []

/-- What one tuple appends to a group: its name for each of its groups of that name. -/
def appended (group : String) (host : Host) : List String :=
  (host.groups.dedup.filter (groupName · = group)).map fun _ => host.name

theorem membersOf_addToGroup (groups : List (String × List String)) (g : String) :
    membersOf (addToGroup name groups g) group =
      membersOf groups group ++ if groupName g = group then [name] else [] := by
  rw [membersOf, membersOf, addToGroup, Assoc.lookup_insert]
  split
  · next h => rw [h]; rfl
  · exact (List.append_nil _).symm

/-- The loop over the groups of a tuple. -/
theorem membersOf_foldl_groups (gs : List String) (groups : List (String × List String)) :
    membersOf (gs.foldl (addToGroup name) groups) group =
      membersOf groups group ++ (gs.filter (groupName · = group)).map fun _ => name := by
  induction gs generalizing groups with
  | nil => simp
  | cons g gs ih =>
    rw [List.foldl_cons, ih, membersOf_addToGroup, List.filter_cons]
    by_cases hg : groupName g = group <;> simp [hg]

/-- The loop over the tuples. -/
theorem membersOf_foldl_hosts (groups : List (String × List String)) :
    membersOf (hosts.foldl
      (fun groups host => host.groups.dedup.foldl (addToGroup host.name) groups) groups) group =
      membersOf groups group ++ hosts.flatMap (appended group) := by
  induction hosts generalizing groups with
  | nil => simp
  | cons host hosts ih =>
    rw [List.foldl_cons, ih, membersOf_foldl_groups, List.flatMap_cons, List.append_assoc]
    rfl

/-- The hosts of a group in `query_list`. -/
theorem groupHosts_queryList (hne : group ≠ "_meta") :
    groupHosts (queryList hosts) group = (hosts.flatMap (appended group)).map .str := by
  have hfold := @membersOf_foldl_hosts hosts group []
  rw [membersOf, membersOf, Assoc.lookup_nil, Option.getD_none, List.nil_append] at hfold
  rw [groupHosts, queryList, Value.getPath_cons, Value.getItem_dict,
    Assoc.lookup_insert_of_ne hne.symm,
    Assoc.lookup_map_snd fun names : List String =>
      Value.dict [("hosts", .list (names.map .str))], ← hfold]
  cases Assoc.lookup group (hosts.foldl
    (fun groups host => host.groups.dedup.foldl (addToGroup host.name) groups) []) <;> rfl

theorem mem_appended :
    name ∈ appended group host ↔ host.name = name ∧ ∃ g ∈ host.groups, groupName g = group := by
  simp only [appended, List.mem_map, List.mem_filter, List.mem_dedup, decide_eq_true_eq]
  constructor
  · rintro ⟨g, hg, rfl⟩
    exact ⟨rfl, g, hg⟩
  · rintro ⟨rfl, g, hg⟩
    exact ⟨g, hg, rfl⟩

theorem str_injective : Function.Injective Value.str := fun _ _ => Value.str.inj

/-- A name is in a group iff a tuple says so. -/
theorem mem_groupHosts (hne : group ≠ "_meta") :
    .str name ∈ groupHosts (queryList hosts) group ↔
      ∃ host ∈ hosts, host.name = name ∧ ∃ g ∈ host.groups, groupName g = group := by
  rw [groupHosts_queryList hne, List.mem_map_of_injective str_injective, List.mem_flatMap]
  exact exists_congr fun host => and_congr_right fun _ => mem_appended

/-- Only the empty name and `all` become one name. -/
theorem groupName_eq_iff {g g' : String} :
    groupName g = groupName g' ↔ g = g' ∨ g = "" ∧ g' = "all" ∨ g = "all" ∧ g' = "" := by
  unfold groupName
  by_cases hg : g = "" <;> by_cases hg' : g' = ""
  · simp [hg, hg']
  · rw [if_pos hg, if_neg hg', hg]
    simp [Ne.symm hg', @eq_comm _ g']
  · rw [if_neg hg, if_pos hg', hg']
    simp [hg]
  · simp [hg, hg']

/-- One tuple names itself once in every group iff it does not have both names of `all`. -/
theorem appended_nodup_iff :
    (∀ group, group ≠ "_meta" → (appended group host).Nodup) ↔
      ¬ ("" ∈ host.groups ∧ "all" ∈ host.groups) := by
  simp only [appended, List.map_const', List.nodup_replicate]
  have hnodup : ∀ group, (host.groups.dedup.filter (groupName · = group)).Nodup :=
    fun group => (List.nodup_dedup _).filter _
  constructor
  · rintro hlen ⟨hempty, hall⟩
    have hsub : ["", "all"] ⊆ host.groups.dedup.filter (groupName · = "all") := by
      simp [groupName, hempty, hall]
    have htwo := (List.subperm_of_subset (by decide) hsub).length_le
    have hone := hlen "all" (by decide)
    simp only [List.length_cons, List.length_nil] at htwo
    omega
  · intro hnot group _
    have hmem : ∀ g ∈ host.groups.dedup.filter (groupName · = group),
        g ∈ host.groups ∧ groupName g = group := fun g hg => by simpa using hg
    match hl : host.groups.dedup.filter (groupName · = group) with
    | [] => exact Nat.zero_le _
    | [_] => exact le_refl _
    | g :: g' :: _ =>
      have hnd := hnodup group
      rw [hl] at hnd hmem
      obtain ⟨hg, hname⟩ := hmem g (by simp)
      obtain ⟨hg', hname'⟩ := hmem g' (by simp)
      rcases groupName_eq_iff.1 (hname.trans hname'.symm) with rfl | ⟨rfl, rfl⟩ | ⟨rfl, rfl⟩
      · simp at hnd
      · exact absurd ⟨hg, hg'⟩ hnot
      · exact absurd ⟨hg', hg⟩ hnot

/-- Two tuples append no common name to any group iff they are apart. -/
theorem appended_disjoint_iff {a b : Host} (hmeta : "_meta" ∉ a.groups) :
    (∀ group, group ≠ "_meta" → (appended group a).Disjoint (appended group b)) ↔ Apart a b := by
  constructor
  · intro h hname g hg g' hg' he
    have hne : groupName g ≠ "_meta" := by
      unfold groupName
      split
      · decide
      · rintro rfl
        exact hmeta hg
    exact h (groupName g) hne (mem_appended.2 ⟨rfl, g, hg, rfl⟩)
      (mem_appended.2 ⟨hname.symm, g', hg', he.symm⟩)
  · intro h group _ name ha hb
    obtain ⟨hna, g, hg, hgroup⟩ := mem_appended.1 ha
    obtain ⟨hnb, g', hg', hgroup'⟩ := mem_appended.1 hb
    exact h (hna.trans hnb.symm) g hg g' hg' (hgroup.trans hgroup'.symm)

/-- No group has a name twice iff no tuple has both names of `all` and tuples with one name are in
different groups. -/
theorem groups_nodup_iff (hmeta : ∀ host ∈ hosts, "_meta" ∉ host.groups) :
    (∀ group, group ≠ "_meta" → (groupHosts (queryList hosts) group).Nodup) ↔
      (∀ host ∈ hosts, ¬ ("" ∈ host.groups ∧ "all" ∈ host.groups)) ∧ hosts.Pairwise Apart := by
  have hsplit : ∀ group, group ≠ "_meta" → ((groupHosts (queryList hosts) group).Nodup ↔
      (∀ host ∈ hosts, (appended group host).Nodup) ∧
        ∀ {a b}, [a, b].Sublist hosts → (appended group a).Disjoint (appended group b)) := by
    intro group hne
    rw [groupHosts_queryList hne, List.nodup_map_iff str_injective, List.nodup_flatMap,
      List.pairwise_iff_forall_sublist]
  rw [List.pairwise_iff_forall_sublist]
  constructor
  · intro h
    refine ⟨fun host hh => appended_nodup_iff.1 fun group hne =>
      ((hsplit group hne).1 (h group hne)).1 host hh, fun {a b} hab => ?_⟩
    exact (appended_disjoint_iff (hmeta a (hab.subset (by simp)))).1 fun group hne =>
      ((hsplit group hne).1 (h group hne)).2 hab
  · rintro ⟨honce, hapart⟩ group hne
    refine (hsplit group hne).2 ⟨fun host hh =>
      appended_nodup_iff.2 (honce host hh) group hne, fun {a b} hab => ?_⟩
    exact (appended_disjoint_iff (hmeta a (hab.subset (by simp)))).2 (hapart hab) group hne

/-- For every list of tuples, the answers agree and groups are sets iff the first and the last tuple
of each name have equal variables, no tuple has both names of `all` among its groups, and tuples
with one name are in different groups. -/
theorem queries_agree_iff (scalar : Value → Value → Bool)
    (hmeta : ∀ host ∈ hosts, "_meta" ∉ host.groups) :
    QueriesAgree scalar hosts ↔
      (∀ first last, FirstOfName hosts first → LastOfName hosts last → first.name = last.name →
        (Value.dict last.attrs).pyEq scalar (.dict first.attrs) = true) ∧
      (∀ host ∈ hosts, ¬ ("" ∈ host.groups ∧ "all" ∈ host.groups)) ∧ hosts.Pairwise Apart := by
  rw [← vars_agree_iff, ← groups_nodup_iff hmeta]
  constructor
  · exact fun h => ⟨h.vars, h.nodup⟩
  · exact fun ⟨hvars, hnodup⟩ => ⟨hvars, hnodup, fun _ _ hne => mem_groupHosts hne⟩

end

/-- Scalars that are strings, compared as such. -/
def strEq (v w : Value) : Bool :=
  match w with
  | .str s => v.isStr s
  | _ => false

/-- Two tuples with one name, in different groups and with the same variables in another order. -/
theorem queries_agree_repeated :
    QueriesAgree strEq
      [⟨"vm", [("ip", .str "10.0.0.1"), ("id", .str "2")], ["", "etcd"]⟩,
        ⟨"vm", [("id", .str "2"), ("ip", .str "10.0.0.1")], ["kube_node"]⟩] := by
  refine (queries_agree_iff strEq (by decide)).2 ⟨?_, by decide, ?_⟩
  · rintro first last ⟨_, _, hfirst, -⟩ ⟨_, _, hlast, -⟩ -
    have hequal : ∀ a ∈ [(⟨"vm", [("ip", .str "10.0.0.1"), ("id", .str "2")], ["", "etcd"]⟩ : Host),
        ⟨"vm", [("id", .str "2"), ("ip", .str "10.0.0.1")], ["kube_node"]⟩],
        ∀ b ∈ [(⟨"vm", [("ip", .str "10.0.0.1"), ("id", .str "2")], ["", "etcd"]⟩ : Host),
          ⟨"vm", [("id", .str "2"), ("ip", .str "10.0.0.1")], ["kube_node"]⟩],
        (Value.dict a.attrs).pyEq strEq (.dict b.attrs) = true := by
      simp only [List.mem_cons, List.not_mem_nil, or_false]
      rintro a (rfl | rfl) b (rfl | rfl) <;> decide +kernel
    exact hequal last (by rw [hlast]; simp) first (by rw [hfirst]; simp)
  · simp [Apart, groupName]

/-- A tuple with the empty name and `all`: the group `all` has the host twice. -/
theorem queries_agree_fails : ¬ ∀ hosts : List Host,
    (∀ host ∈ hosts, "_meta" ∉ host.groups) → QueriesAgree strEq hosts := by
  intro h
  have hagree := h [⟨"vm", [], ["", "all"]⟩] (by decide)
  have hnodup := hagree.nodup "all" (by decide)
  have htwice : groupHosts (queryList [⟨"vm", [], ["", "all"]⟩]) "all" =
      [.str "vm", .str "vm"] := rfl
  rw [htwice] at hnodup
  simp at hnodup

end Terraform
