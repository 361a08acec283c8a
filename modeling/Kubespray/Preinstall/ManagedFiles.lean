import Kubespray.Lib.ManagedBlock
import Kubespray.Preinstall.LocalhostEntries

/-!
# The block of `/etc/hosts`

`0090-etchosts.yml` keeps the hosts of the inventory in a block of `/etc/hosts`, and edits lines of
the same file with `lineinfile`: the line of the load balancer and those of localhost
(`updateHosts`). Every run of a playbook does all of this again, possibly for another inventory.

The edits do not get into each other's way (`hosts_block_runs`): after any sequence of runs the lines
outside the block are those that the other tasks alone would have written, and the block is that
of the last inventory. The blank at the end of its lines keeps them from being taken for the line of
the load balancer.
-/

open HostsFile (HostsWord hostsWords addressOf namesOf shows lookupHost)
open Py (lowerAscii)
open ManagedBlock (Marks HasBlock Unmarked marked setBlock dropBlock)

namespace Kubespray

/-! ## The hosts of the inventory -/

/-- What the task reads of `hostvars`. -/
structure HostVars where
  accessIp : Option HostsWord := none
  ip : Option HostsWord := none
  /-- `ansible_default_ipv4.address`. -/
  defaultIpv4 : Option HostsWord := none
  ansibleHostname : Option HostsWord := none

/-- The groups and variables of the inventory. -/
structure HostsInventory where
  k8sCluster : List HostsWord
  etcd : List HostsWord := []
  calicoRr : List HostsWord := []
  hostvars : HostsWord → HostVars
  dnsDomain : HostsWord

namespace HostsInventory

variable (inv : HostsInventory)

/-- The hosts of the loop. The filter `unique` compares in lower case. -/
def hosts (lower : String → String) : List HostsWord :=
  Unique.uniqueBy (fun item => lower item.text) (inv.k8sCluster ++ inv.etcd ++ inv.calicoRr)

/-- The address of the host's line. -/
def address (item : HostsWord) : Option HostsWord :=
  let vars := inv.hostvars item
  vars.accessIp <|> vars.ip <|> vars.defaultIpv4

/-- The name on the host's line. -/
def shownName (item : HostsWord) : HostsWord :=
  match (inv.hostvars item).ansibleHostname with
  | some hostname => if item ≠ hostname then hostname else item
  | none => item

/-- The same with the domain. -/
def fullName (item : HostsWord) : HostsWord := (inv.shownName item).dot inv.dnsDomain

/-- The line of a host, which has a blank at its end. -/
def line (item : HostsWord) : Option String :=
  (inv.address item).map fun a =>
    a.text ++ " " ++ (inv.fullName item).text ++ " " ++ (inv.shownName item).text ++ " "

/-- `etc_hosts_inventory_block`. -/
def block (lower : String → String) : List String := (inv.hosts lower).filterMap inv.line

/-- The address that the inventory gives a name: that of the first host with this name. -/
def addressNamed (lower : String → String) (n : String) : Option String :=
  (inv.hosts lower).findSome? fun item =>
    if lower (inv.fullName item).text = lower n ∨ lower (inv.shownName item).text = lower n then
      (inv.address item).map (·.text) else none

end HostsInventory

/-! ## The tasks -/

/-- The markers of the block in `/etc/hosts`. -/
def hostsMarks : Marks String where
  opening := "# Ansible inventory hosts BEGIN"
  closing := "# Ansible inventory hosts END"
  atStart := false
  ne := by decide

/-- The variables of a run. -/
structure EtcHosts where
  populateInventoryToHostsFile : Bool := true
  inventory : HostsInventory
  /-- `loadbalancer_apiserver.address`, if it is defined. -/
  loadbalancer : Option HostsWord := none
  apiserverLoadbalancerDomainName : HostsWord
  entries : LocalhostEntries

namespace EtcHosts

variable (run : EtcHosts)

/-- `Hosts | populate inventory into hosts file`; an empty block is taken out. -/
def populateInventory (lower : String → String) (lines : List String) : List String :=
  if run.populateInventoryToHostsFile then
    if run.inventory.block lower = [] then dropBlock hostsMarks lines
    else setBlock hostsMarks (run.inventory.block lower) lines
  else lines

/-- The `regexp` of the next task: the domain name at the end of the line. -/
def selectsLoadbalancer (line : String) : Bool :=
  let name := run.apiserverLoadbalancerDomainName.text.toList
  line.toList.tails.any fun text => text.length = name.length && Grep.matchesAt name text

/-- `Hosts | populate kubernetes loadbalancer address into hosts file`. -/
def populateLoadbalancer (lines : List String) : List String :=
  match run.loadbalancer with
  | some a =>
    LastMatch.replaceLast run.selectsLoadbalancer
      (a.text ++ " " ++ run.apiserverLoadbalancerDomainName.text) lines
  | none => lines

/-- The tasks that edit lines. -/
def editLines (tbl : Py.CharTable) (lower : String → String) (lines : List String) : List String :=
  updateHosts tbl lower run.entries (run.populateLoadbalancer lines)

/-- The lines of `/etc/hosts` after the tasks. -/
def update (tbl : Py.CharTable) (lower : String → String) (lines : List String) : List String :=
  run.editLines tbl lower (run.populateInventory lower lines)

/-- No host has the address of localhost, and the name of the load balancer is none that the markers
end in. -/
structure Fits (lower : String → String) : Prop where
  other : ∀ line ∈ run.inventory.block lower, ∀ a : LocalhostAddress, a.selects line = false
  dot : run.apiserverLoadbalancerDomainName.text.toList.getLast? ≠ some '.'
  opening : run.selectsLoadbalancer hostsMarks.opening = false
  closing : run.selectsLoadbalancer hostsMarks.closing = false

end EtcHosts

/-- The inventory of the last run that writes the block. -/
def lastInventory (runs : List EtcHosts) : Option HostsInventory :=
  ((runs.filter (·.populateInventoryToHostsFile)).getLast?).map (·.inventory)

/-! ## The lines of the block -/

section
variable {inv : HostsInventory} {lower : String → String} {item a : HostsWord} {l n : String}

/-- The words of a host's line. -/
theorem hostsWords_line (ha : inv.address item = some a) (hl : inv.line item = some l) :
    hostsWords l = [a.text, (inv.fullName item).text, (inv.shownName item).text] := by
  rw [HostsInventory.line, ha, Option.map_some] at hl
  cases hl
  have hcomment : '#' ∉ (a.text ++ " " ++ (inv.fullName item).text ++ " " ++
      (inv.shownName item).text ++ " ").toList := by
    simp [a.no_comment, (inv.fullName item).no_comment, (inv.shownName item).no_comment]
  have hjoin : a.text ++ " " ++ (inv.fullName item).text ++ " " ++ (inv.shownName item).text ++
      " " =
      a.text ++ " " ++ ((inv.fullName item).text ++ " " ++ ((inv.shownName item).text ++ " " ++ ""))
      := by
    simp [String.append_assoc]
  rw [hostsWords, HostsFile.withoutComment_of_not_mem hcomment, hjoin,
    HostsFile.fields_word_append, HostsFile.fields_word_append, HostsFile.fields_word_append,
    Fields.fields_empty]

/-- A host's line is one item of `splitlines`, and ends in a blank. -/
theorem line_spec (hl : inv.line item = some l) :
    Py.splitlines l = [l] ∧ l.toList.getLast? = some ' ' ∧ '#' ∉ l.toList := by
  rw [HostsInventory.line, Option.map_eq_some_iff] at hl
  obtain ⟨a, -, rfl⟩ := hl
  refine ⟨Py.splitlines_of_oneLine (fun h => ?_) fun c hc => ?_, ?_, ?_⟩
  · have := congrArg String.toList h
    simp at this
  · simp only [String.toList_append, List.mem_append] at hc
    rcases hc with ((((hc | hc) | hc) | hc) | hc) | hc
    · exact a.one_line c hc
    · cases List.mem_singleton.1 hc
      rfl
    · exact (inv.fullName item).one_line c hc
    · cases List.mem_singleton.1 hc
      rfl
    · exact (inv.shownName item).one_line c hc
    · cases List.mem_singleton.1 hc
      rfl
  · rw [String.toList_append]
    exact List.getLast?_concat
  · simp [a.no_comment, (inv.fullName item).no_comment, (inv.shownName item).no_comment]

theorem mem_block (h : l ∈ inv.block lower) :
    Py.splitlines l = [l] ∧ l.toList.getLast? = some ' ' ∧ '#' ∉ l.toList := by
  obtain ⟨item, -, hl⟩ := List.mem_filterMap.1 h
  exact line_spec hl

/-- The address that a name has in the block. -/
theorem lookupHost_block :
    lookupHost lower (inv.block lower) n = inv.addressNamed lower n := by
  rw [lookupHost, HostsInventory.block, HostsInventory.addressNamed]
  induction inv.hosts lower with
  | nil => rfl
  | cons item items ih =>
    cases ha : inv.address item with
    | none =>
      have hl : inv.line item = none := by rw [HostsInventory.line, ha, Option.map_none]
      rw [List.filterMap_cons_none hl, ih, List.findSome?_cons, ha]
      simp
    | some a =>
      obtain ⟨l, hl⟩ : ∃ l, inv.line item = some l := by
        rw [HostsInventory.line, ha]
        exact ⟨_, rfl⟩
      have hwords := hostsWords_line ha hl
      have hshows : shows lower n l = true ↔
          lower (inv.fullName item).text = lower n ∨ lower (inv.shownName item).text = lower n := by
        simp [HostsFile.shows_iff, namesOf, hwords]
      rw [List.filterMap_cons_some hl, List.find?_cons, List.findSome?_cons, ha]
      by_cases hn : lower (inv.fullName item).text = lower n ∨
          lower (inv.shownName item).text = lower n
      · rw [hshows.2 hn, if_pos hn]
        simp [addressOf, hwords]
      · rw [Bool.eq_false_iff.2 (mt hshows.1 hn), if_neg hn, ← ih]

end

/-! ## The edits of other lines -/

section
variable {tbl : Py.CharTable} {lower : String → String} {run : EtcHosts}
  {block others lines mid before after : List String} {l : String}

/-- The tasks for localhost pass over the line. -/
def PassedOver (l : String) : Prop :=
  Py.splitlines l = [l] ∧ ∀ a : LocalhostAddress, a.selects l = false

theorem PassedOver.isLocalhostItem (h : PassedOver l) : isLocalhostItem l = false := by
  rw [Bool.eq_false_iff]
  intro hitem
  obtain ⟨a, ha⟩ := isLocalhostItem_iff.1 hitem
  rw [String.toList_append] at ha
  have hselects : a.selects l = true := Grep.matchesAt_of_append ha
  rw [h.2 a] at hselects
  cases hselects

/-- Nothing is read from lines that are passed over. -/
theorem localhostsDict_between (h : ∀ l ∈ mid, PassedOver l) :
    localhostsDict tbl (hostsItems (before ++ (mid ++ after))) =
      localhostsDict tbl (hostsItems (before ++ after)) := by
  have hmid : (hostsItems mid).filter isLocalhostItem = [] := by
    refine List.filter_eq_nil_iff.2 fun item hitem => ?_
    obtain ⟨l, hl, hin⟩ := List.mem_flatMap.1 hitem
    rw [(h l hl).1, List.mem_singleton] at hin
    subst hin
    simp [(h _ hl).isLocalhostItem]
  rw [hostsItems] at hmid
  rw [localhostsDict, localhostsDict, hostsItems, hostsItems, List.flatMap_append,
    List.flatMap_append, List.flatMap_append, List.filter_append, List.filter_append,
    List.filter_append, hmid, List.nil_append]

theorem hasBlock_updateHosts {entries : LocalhostEntries}
    (h : HasBlock hostsMarks block others lines)
    (hpass : ∀ l ∈ marked hostsMarks block, PassedOver l) :
    HasBlock hostsMarks block (updateHosts tbl lower entries others)
      (updateHosts tbl lower entries lines) := by
  have hdict : localhostsDict tbl (hostsItems lines) = localhostsDict tbl (hostsItems others) := by
    obtain ⟨before, after, rfl, rfl⟩ := h
    exact localhostsDict_between hpass
  rw [updateHosts, updateHosts, hdict]
  generalize localhostsDict tbl (hostsItems others) = dict
  clear hdict
  induction entries.items generalizing others lines with
  | nil => exact h
  | cons entry items ih =>
    exact ih (ManagedBlock.hasBlock_replaceLast h fun l hl => (hpass l hl).2 entry.1)

theorem hasBlock_populateLoadbalancer (h : HasBlock hostsMarks block others lines)
    (hpass : ∀ l ∈ marked hostsMarks block, run.selectsLoadbalancer l = false) :
    HasBlock hostsMarks block (run.populateLoadbalancer others)
      (run.populateLoadbalancer lines) := by
  rw [EtcHosts.populateLoadbalancer, EtcHosts.populateLoadbalancer]
  split
  · exact ManagedBlock.hasBlock_replaceLast h hpass
  · exact h

/-- The tasks that edit lines write no marker. -/
theorem unmarked_editLines (h : Unmarked hostsMarks others) :
    Unmarked hostsMarks (run.editLines tbl lower others) := by
  have hmarks : '#' ∈ hostsMarks.opening.toList ∧ '#' ∈ hostsMarks.closing.toList := by decide
  have hload : Unmarked hostsMarks (run.populateLoadbalancer others) := by
    rw [EtcHosts.populateLoadbalancer]
    split
    · next a _ =>
      have hnot : '#' ∉ (a.text ++ " " ++ run.apiserverLoadbalancerDomainName.text).toList := by
        simp [a.no_comment, run.apiserverLoadbalancerDomainName.no_comment]
      exact ManagedBlock.unmarked_replaceLast h (fun heq => hnot (heq ▸ hmarks.1))
        fun heq => hnot (heq ▸ hmarks.2)
    · exact h
  rw [EtcHosts.editLines, updateHosts]
  generalize localhostsDict tbl _ = dict
  generalize run.populateLoadbalancer others = lines at hload
  induction run.entries.items generalizing lines with
  | nil => exact hload
  | cons entry items ih =>
    have hhead : ∀ names : List String, ∀ m, m.toList.head? = some '#' →
        hostsLine entry.1 names ≠ m := by
      intro names m hm heq
      rw [← heq, head?_of_selects selects_hostsLine, LocalhostAddress.head?_text] at hm
      cases hentry : entry.1 <;> simp [hentry] at hm
    exact ih _ (ManagedBlock.unmarked_replaceLast hload (hhead _ _ rfl) (hhead _ _ rfl))

/-- A line that ends in a blank is not taken for the line of the load balancer. -/
theorem selectsLoadbalancer_eq_false (hfits : run.Fits lower) (hl : l.toList.getLast? = some ' ') :
    run.selectsLoadbalancer l = false := by
  rw [Bool.eq_false_iff]
  intro h
  rw [EtcHosts.selectsLoadbalancer, List.any_eq_true] at h
  obtain ⟨text, htext, hmatch⟩ := h
  rw [Bool.and_eq_true, decide_eq_true_eq] at hmatch
  obtain ⟨c, hc⟩ : ∃ c, run.apiserverLoadbalancerDomainName.text.toList.getLast? = some c := by
    rw [← Option.isSome_iff_exists, List.getLast?_isSome]
    exact mt String.toList_eq_nil_iff.1 run.apiserverLoadbalancerDomainName.ne_empty
  have hlast : text.getLast? = some ' ' := by
    obtain ⟨t, ht⟩ := (List.mem_tails _ _).1 htext
    have hne : text ≠ [] := fun hnil => by
      rw [hnil, List.length_nil, eq_comm, List.length_eq_zero_iff] at hmatch
      exact mt String.toList_eq_nil_iff.1 run.apiserverLoadbalancerDomainName.ne_empty hmatch.1
    rw [← ht, List.getLast?_append_of_ne_nil _ hne] at hl
    exact hl
  rcases Grep.getLast?_of_matchesAt hmatch.2 hmatch.1 hc hlast with rfl | rfl
  · exact hfits.dot hc
  · have := run.apiserverLoadbalancerDomainName.unbroken _ (List.mem_of_getLast? hc)
    cases this

end

/-! ## The runs -/

section
variable {tbl : Py.CharTable} {lower : String → String} {run : EtcHosts} {runs : List EtcHosts}
  {block others lines : List String} {n : String}

/-- The inventory that is written by the last of the runs. -/
theorem lastInventory_append : lastInventory (runs ++ [run]) =
    if run.populateInventoryToHostsFile then some run.inventory else lastInventory runs := by
  rw [lastInventory, List.filter_append]
  split
  · next h => simp [h]
  · next h =>
    rw [List.filter_cons_of_neg h, List.filter_nil, List.append_nil]
    rfl

/-- The block of the last inventory. -/
def lastBlock (lower : String → String) (runs : List EtcHosts) : List String :=
  (lastInventory runs).elim [] (·.block lower)

theorem exists_of_mem_lastBlock {l : String} (h : l ∈ lastBlock lower runs) :
    ∃ run ∈ runs, l ∈ run.inventory.block lower := by
  rw [lastBlock, lastInventory] at h
  cases hlast : (runs.filter (·.populateInventoryToHostsFile)).getLast? with
  | none =>
    rw [hlast] at h
    cases h
  | some run =>
    rw [hlast] at h
    exact ⟨run, List.mem_of_mem_filter (List.mem_of_getLast? hlast), h⟩

theorem unmarked_lastBlock : Unmarked hostsMarks (lastBlock lower runs) := by
  have hcomment : ∀ l ∈ lastBlock lower runs, '#' ∉ l.toList := fun l hl => by
    obtain ⟨run, -, hin⟩ := exists_of_mem_lastBlock hl
    exact (mem_block hin).2.2
  exact ⟨fun h => hcomment _ h (by decide), fun h => hcomment _ h (by decide)⟩

/-- The tasks that edit lines leave the block of earlier runs. -/
theorem edits_pass_lastBlock (hfits : run.Fits lower) (hruns : ∀ run ∈ runs, run.Fits lower) :
    ∀ l ∈ marked hostsMarks (lastBlock lower runs),
      PassedOver l ∧ run.selectsLoadbalancer l = false := by
  intro l hl
  have hmarker : PassedOver hostsMarks.opening ∧ PassedOver hostsMarks.closing := by
    refine ⟨⟨by decide, ?_⟩, by decide, ?_⟩ <;> · intro a; cases a <;> rfl
  have hmem : l = hostsMarks.opening ∨ l ∈ lastBlock lower runs ∨ l = hostsMarks.closing := by
    revert hl
    cases lastBlock lower runs with
    | nil => exact nofun
    | cons x block =>
      rw [marked, List.mem_cons, List.mem_append, List.mem_singleton]
      exact id
  rcases hmem with rfl | hin | rfl
  · exact ⟨hmarker.1, hfits.opening⟩
  · obtain ⟨earlier, hearlier, hline⟩ := exists_of_mem_lastBlock hin
    have hspec := mem_block hline
    exact ⟨⟨hspec.1, (hruns earlier hearlier).other l hline⟩,
      selectsLoadbalancer_eq_false hfits hspec.2.1⟩
  · exact ⟨hmarker.2, hfits.closing⟩

/-- The first task of a run writes the block of its inventory. -/
theorem hasBlock_populateInventory (h : HasBlock hostsMarks (lastBlock lower runs) others lines)
    (hothers : Unmarked hostsMarks others) :
    HasBlock hostsMarks (lastBlock lower (runs ++ [run])) others
      (run.populateInventory lower lines) := by
  rw [lastBlock, lastInventory_append, EtcHosts.populateInventory]
  split
  · split
    · next hempty =>
      rw [Option.elim_some, hempty]
      exact ManagedBlock.hasBlock_dropBlock h hothers unmarked_lastBlock
    · next hne => exact ManagedBlock.hasBlock_setBlock h hothers unmarked_lastBlock hne
  · exact h

/-- The lines outside the block are written by the other tasks, and the block is the last one. -/
theorem hasBlock_runs (hlines : Unmarked hostsMarks lines) (hruns : ∀ run ∈ runs, run.Fits lower) :
    Unmarked hostsMarks (runs.foldl (fun lines run => run.editLines tbl lower lines) lines) ∧
      HasBlock hostsMarks (lastBlock lower runs)
        (runs.foldl (fun lines run => run.editLines tbl lower lines) lines)
        (runs.foldl (fun lines run => run.update tbl lower lines) lines) := by
  induction runs using List.reverseRecOn with
  | nil => exact ⟨hlines, ManagedBlock.hasBlock_nil⟩
  | append_singleton runs run ih =>
    rw [List.forall_mem_append] at hruns
    obtain ⟨hothers, hblock⟩ := ih hruns.1
    have hpass : ∀ l ∈ marked hostsMarks (lastBlock lower (runs ++ [run])),
        PassedOver l ∧ run.selectsLoadbalancer l = false :=
      edits_pass_lastBlock (hruns.2 run (.head _)) (List.forall_mem_append.2 hruns)
    rw [List.foldl_append, List.foldl_append]
    refine ⟨unmarked_editLines hothers, ?_⟩
    have hpopulated : HasBlock hostsMarks (lastBlock lower (runs ++ [run])) _
        (run.populateInventory lower _) :=
      hasBlock_populateInventory hblock hothers
    exact hasBlock_updateHosts (hasBlock_populateLoadbalancer hpopulated fun l hl =>
      (hpass l hl).2) fun l hl => (hpass l hl).1

/-- A name on no line outside the block is looked up in the block. -/
theorem lookupHost_of_hasBlock (h : HasBlock hostsMarks block others lines)
    (hn : ∀ l ∈ others, shows lower n l = false) :
    lookupHost lower lines n = lookupHost lower block n := by
  obtain ⟨before, after, rfl, rfl⟩ := h
  have hmarker : shows lower n hostsMarks.opening = false ∧
      shows lower n hostsMarks.closing = false := by
    have hnames : namesOf hostsMarks.opening = [] ∧ namesOf hostsMarks.closing = [] := by decide
    rw [shows, shows, hnames.1, hnames.2]
    exact ⟨rfl, rfl⟩
  have hmarked : lookupHost lower (marked hostsMarks block) n = lookupHost lower block n := by
    cases block with
    | nil => rfl
    | cons x block =>
      rw [marked, ← List.singleton_append]
      exact HostsFile.lookupHost_between (List.forall_mem_singleton.2 hmarker.1)
        (List.forall_mem_singleton.2 hmarker.2)
  rw [HostsFile.lookupHost_between (fun l hl => hn l (List.mem_append_left _ hl))
    fun l hl => hn l (List.mem_append_right _ hl), hmarked]

/-- After any sequence of runs on a file without the markers, with inventories and names that fit,
the lines outside the block are those that the other tasks alone would have written, and the block
is that of the last inventory: a name on no other line is looked up among its hosts. -/
theorem hosts_block_runs (hlines : Unmarked hostsMarks lines)
    (hruns : ∀ run ∈ runs, run.Fits lower) :
    let others := runs.foldl (fun lines run => run.editLines tbl lower lines) lines
    let final := runs.foldl (fun lines run => run.update tbl lower lines) lines
    HasBlock hostsMarks (lastBlock lower runs) others final ∧
      ∀ n, (∀ l ∈ others, shows lower n l = false) →
        lookupHost lower final n = (lastInventory runs).bind (·.addressNamed lower n) := by
  intro others final
  have hblock : HasBlock hostsMarks (lastBlock lower runs) others final :=
    (hasBlock_runs hlines hruns).2
  refine ⟨hblock, fun n hn => ?_⟩
  rw [lookupHost_of_hasBlock hblock hn, lastBlock]
  cases lastInventory runs with
  | none => rfl
  | some inv => exact lookupHost_block

end

/-- Two runs: a cluster of one node, and later a cluster of another one with a load balancer, whose
name is spelled in two ways. -/
def movedCluster : List EtcHosts :=
  let inventory (node member address : HostsWord) : HostsInventory :=
    { k8sCluster := [node], etcd := [member], dnsDomain := { text := "cluster.local" },
      hostvars := fun _ => { ip := some address } }
  [{ inventory := inventory { text := "node1" } { text := "node1" } { text := "10.0.4.1" },
     apiserverLoadbalancerDomainName := { text := "lb-apiserver.kubernetes.local" },
     entries := defaultLocalhostEntries },
   { inventory := inventory { text := "node2" } { text := "Node2" } { text := "10.0.4.2" },
     loadbalancer := some { text := "10.0.4.9" },
     apiserverLoadbalancerDomainName := { text := "lb-apiserver.kubernetes.local" },
     entries := defaultLocalhostEntries }]

theorem hosts_block_runs_two :
    let final := movedCluster.foldl (fun lines run => run.update .ascii lowerAscii lines)
      ["127.0.0.1 localhost"]
    final = ["127.0.0.1 localhost localhost.localdomain", "# Ansible inventory hosts BEGIN",
      "10.0.4.2 node2.cluster.local node2 ", "# Ansible inventory hosts END",
      "::1 localhost6 localhost6.localdomain", "10.0.4.9 lb-apiserver.kubernetes.local"] ∧
    lookupHost lowerAscii final "NODE2" = some "10.0.4.2" ∧
      lookupHost lowerAscii final "node1" = none := by
  have hfits : ∀ run ∈ movedCluster, run.Fits lowerAscii := by
    intro run hrun
    have hlines : ∀ line ∈ run.inventory.block lowerAscii,
        LocalhostAddress.v4.selects line = false ∧ LocalhostAddress.v6.selects line = false := by
      revert run
      decide +kernel
    refine ⟨fun line hline a => ?_, ?_, ?_, ?_⟩
    · cases a
      · exact (hlines line hline).1
      · exact (hlines line hline).2
    all_goals
      clear hlines
      revert run
      decide +kernel
  have h := @hosts_block_runs .ascii lowerAscii movedCluster ["127.0.0.1 localhost"] (by decide)
    hfits
  refine ⟨by decide +kernel, (h.2 "NODE2" (by decide +kernel)).trans (by decide +kernel),
    (h.2 "node1" (by decide +kernel)).trans (by decide +kernel)⟩

end Kubespray
