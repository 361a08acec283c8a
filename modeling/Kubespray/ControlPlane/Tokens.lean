import Kubespray.Lib.Grep
import Kubespray.Lib.PyStr
import Mathlib.Data.List.Nodup
import Mathlib.Logic.Function.Basic

/-!
# The tokens of the nodes

The role `kubernetes/tokens` writes a row of `known_tokens.csv` and a token file for each host. It
does so only where the file does not exist yet, so hosts that are added later get no token; and
`kube-gen-token.sh` skips an account that `grep` finds in an earlier row, where a dot of the name
stands for any character. `tokens_iff` says which histories of runs serve every host; `tokens_fails`
adds a host to one and begins another with the hosts `a-b` and `a.b`. -/

namespace Kubespray

/-! ## The role -/

/-- The assertion `Stop if bad hostname`: labels of lower-case letters, digits and `-` between dots,
each of which begins and ends with a letter or a digit. -/
def goodHostname (name : String) : Bool :=
  (Py.split '.' name).all fun label =>
    label.toList.all (fun c => isLowerAlnum c || c == '-') &&
      label.toList.head?.any isLowerAlnum && label.toList.getLast?.any isLowerAlnum
where
  /-- A lower-case letter or a digit. -/
  isLowerAlnum (c : Char) : Bool := c.isLower || c.isDigit

/-- The groups of an inventory whose hosts get tokens. -/
structure TokenGroups where
  /-- `groups['kube_control_plane']`. -/
  kubeControlPlane : List String
  /-- `groups['kube_node']`. -/
  kubeNode : List String
  control_plane_ne_nil : kubeControlPlane ≠ []
  control_plane_nodup : kubeControlPlane.Nodup
  node_nodup : kubeNode.Nodup
  good : ∀ h ∈ kubeControlPlane ++ kubeNode, goodHostname h = true

/-- The accounts of `Gen_tokens | generate tokens for master components` and `… for node
components`, in the order of the loops. -/
def TokenGroups.accounts (groups : TokenGroups) : List String :=
  groups.kubeControlPlane.map ("system:kubectl-" ++ ·) ++
    groups.kubeNode.map ("system:kubelet-" ++ ·)

/-- The text of a drawn token: characters of `base64` without `=`, `+` and `/`. -/
structure Token where
  /-- The text. -/
  text : String
  plain : text.toList.all Char.isAlphanum = true
  deriving DecidableEq

/-- `kube_token_dir` on the first host of `kube_control_plane`, to which the tasks that write it are
delegated. -/
structure TokenDir where
  /-- The rows of `known_tokens.csv`, if it exists. -/
  knownTokens : Option (List String)
  /-- The content of the file `<account>.token`. -/
  tokenFile : String → Option String

/-- The directory before the first run. -/
def TokenDir.empty : TokenDir := ⟨none, fun _ => none⟩

/-- The rows of `known_tokens.csv`; none without the file. -/
def TokenDir.rows (dir : TokenDir) : List String := dir.knownTokens.getD []

/-- The row that the script adds. -/
def tokenRow (token : Token) (account : String) : String :=
  token.text ++ "," ++ account ++ "," ++ account

/-- `kube-gen-token.sh` for one account, with the token it draws. -/
def kubeGenToken (draw : String → Token) (dir : TokenDir) (account : String) : TokenDir :=
  if dir.rows.any (Grep.selects ("," ++ account ++ ",")) then
    { dir with knownTokens := some dir.rows }
  else
    { knownTokens := some (dir.rows ++ [tokenRow (draw account) account])
      tokenFile := Function.update dir.tokenFile account (some (draw account).text) }

/-- A run of the role: its inventory, and the token drawn for an account if the script draws one. -/
structure TokenRun where
  /-- The groups of the inventory. -/
  groups : TokenGroups
  /-- The random draws. -/
  draw : String → Token

/-- The role: `gen_tokens` is true where `known_tokens.csv` does not exist. -/
def tokensRole (dir : TokenDir) (run : TokenRun) : TokenDir :=
  if dir.knownTokens.isNone then run.groups.accounts.foldl (kubeGenToken run.draw) dir else dir

/-- The directory after these runs. -/
def afterRuns (runs : List TokenRun) : TokenDir := runs.foldl tokensRole .empty

/-! ## What the hosts need -/

/-- The rows of an account: those with its name in the second field. -/
def TokenDir.rowsOf (dir : TokenDir) (account : String) : List String :=
  dir.rows.filter fun row => (Py.split ',' row)[1]? = some account

/-- The account has exactly one row, and its file has the token of that row. -/
def TokenDir.Serves (dir : TokenDir) (account : String) : Prop :=
  ∃ token : Token, dir.rowsOf account = [tokenRow token account] ∧
    dir.tokenFile account = some token.text

/-- No host of the group is found in the row of a host before it. -/
def Separated (group : List String) : Prop := group.Pairwise fun h h' => ¬ Grep.Matches h' h

/-! ## Names and rows -/

section
variable {groups : TokenGroups} {account name : String}

/-- The names that pass the check have no comma. -/
theorem comma_not_mem_of_goodHostname (h : goodHostname name = true) : ',' ∉ name.toList := by
  intro hc
  obtain hdot | ⟨label, hlabel, hc⟩ := Py.eq_or_mem_of_split '.' hc
  · cases hdot
  · have hgood := List.all_eq_true.1 h label hlabel
    simp only [Bool.and_eq_true, List.all_eq_true] at hgood
    exact absurd (hgood.1.1 ',' hc) (by decide)

theorem mem_accounts :
    account ∈ groups.accounts ↔
      (∃ h ∈ groups.kubeControlPlane, "system:kubectl-" ++ h = account) ∨
        ∃ h ∈ groups.kubeNode, "system:kubelet-" ++ h = account := by
  simp [TokenGroups.accounts]

theorem comma_not_mem_account (ha : account ∈ groups.accounts) : ',' ∉ account.toList := by
  obtain ⟨h, hh, rfl⟩ | ⟨h, hh, rfl⟩ := mem_accounts.1 ha
  · rw [String.toList_append, List.mem_append, not_or]
    exact ⟨by decide, comma_not_mem_of_goodHostname (groups.good h (List.mem_append_left _ hh))⟩
  · rw [String.toList_append, List.mem_append, not_or]
    exact ⟨by decide, comma_not_mem_of_goodHostname (groups.good h (List.mem_append_right _ hh))⟩

theorem comma_not_mem_token (token : Token) : ',' ∉ token.text.toList :=
  fun h => absurd (List.all_eq_true.1 token.plain ',' h) (by decide)

/-- The script finds an account in the row of another iff its name matches that account's as an
expression. -/
theorem selects_tokenRow {token : Token} {account account' : String}
    (h : ',' ∉ account'.toList) :
    Grep.selects ("," ++ account ++ ",") (tokenRow token account') = true ↔
      Grep.Matches account account' := by
  have hsep : "," = String.singleton ',' := rfl
  rw [tokenRow, hsep]
  exact Grep.selects_field_iff (by decide) (comma_not_mem_token token) h h

/-- The second field of a row is its account. -/
theorem split_tokenRow {token : Token} (h : ',' ∉ account.toList) :
    (Py.split ',' (tokenRow token account))[1]? = some account := by
  have hsep : "," = String.singleton ',' := rfl
  have hrow : tokenRow token account =
      token.text ++ String.singleton ',' ++ (account ++ String.singleton ',' ++ account) := by
    rw [tokenRow, hsep]
    simp only [String.append_assoc]
  rw [hrow, Py.split_append (comma_not_mem_token token), Py.split_append h]
  rfl

/-- One beginning of the names does not change whether they match. -/
theorem matches_append {role : String} {h h' : String} :
    Grep.Matches (role ++ h) (role ++ h') ↔ Grep.Matches h h' := by
  simp only [Grep.Matches, String.toList_append]
  induction role.toList with
  | nil => rfl
  | cons c cs ih => simp [ih]

/-- No account of a node is found in the row of a control-plane account. -/
theorem not_matches_roles {h h' : String} :
    ¬ Grep.Matches ("system:kubelet-" ++ h') ("system:kubectl-" ++ h) := by
  intro hm
  simp [Grep.Matches, String.toList_append] at hm

/-- No account of a node is one of the control plane. -/
theorem kubelet_ne_kubectl {h h' : String} : "system:kubelet-" ++ h' ≠ "system:kubectl-" ++ h := by
  intro heq
  have hl := congrArg String.toList heq
  simp at hl

/-- The accounts are distinct. -/
theorem accounts_nodup : groups.accounts.Nodup := by
  have hinj : ∀ role : String, Function.Injective (role ++ ·) :=
    fun role _ _ heq => (String.append_right_inj role).1 heq
  refine List.nodup_append.2 ⟨groups.control_plane_nodup.map (hinj _),
    groups.node_nodup.map (hinj _), ?_⟩
  intro a ha b hb hab
  obtain ⟨h, -, rfl⟩ := List.mem_map.1 ha
  obtain ⟨h', -, rfl⟩ := List.mem_map.1 hb
  exact kubelet_ne_kubectl hab.symm

theorem accounts_ne_nil : groups.accounts ≠ [] := by
  intro h
  have := (List.append_eq_nil_iff.1 h).1
  exact groups.control_plane_ne_nil (List.map_eq_nil_iff.1 this)

/-- No account is found in the row of one before it iff the hosts of both groups are separated. -/
theorem pairwise_accounts_iff :
    (groups.accounts.Pairwise fun a a' => ¬ Grep.Matches a' a) ↔
      Separated groups.kubeControlPlane ∧ Separated groups.kubeNode := by
  rw [TokenGroups.accounts, List.pairwise_append, List.pairwise_map, List.pairwise_map]
  simp only [matches_append, Separated, List.mem_map]
  refine ⟨fun h => ⟨h.1, h.2.1⟩, fun h => ⟨h.1, h.2, ?_⟩⟩
  rintro _ ⟨h, -, rfl⟩ _ ⟨h', -, rfl⟩
  exact not_matches_roles

/-- The accounts of one inventory are among those of another iff its hosts are, group by group. -/
theorem accounts_subset_iff {groups' : TokenGroups} :
    groups.accounts ⊆ groups'.accounts ↔
      groups.kubeControlPlane ⊆ groups'.kubeControlPlane ∧ groups.kubeNode ⊆ groups'.kubeNode := by
  have hctl : ∀ {groups : TokenGroups} {h : String},
      "system:kubectl-" ++ h ∈ groups.accounts ↔ h ∈ groups.kubeControlPlane := by
    intro groups h
    simp [mem_accounts, kubelet_ne_kubectl]
  have hlet : ∀ {groups : TokenGroups} {h : String},
      "system:kubelet-" ++ h ∈ groups.accounts ↔ h ∈ groups.kubeNode := by
    intro groups h
    simp [mem_accounts, kubelet_ne_kubectl.symm]
  constructor
  · exact fun h => ⟨fun _ hx => hctl.1 (h (hctl.2 hx)), fun _ hx => hlet.1 (h (hlet.2 hx))⟩
  · rintro ⟨hcp, hnode⟩ account ha
    obtain ⟨h, hh, rfl⟩ | ⟨h, hh, rfl⟩ := mem_accounts.1 ha
    · exact hctl.2 (hcp hh)
    · exact hlet.2 (hnode hh)

end

/-! ## The run that generates -/

/-- The accounts of which the script writes a row, starting without rows. -/
def writtenAccounts (accounts : List String) : List String :=
  accounts.foldl (fun written account =>
    if ∃ a ∈ written, Grep.Matches account a then written else written ++ [account]) []

/-- The directory with the rows and files of these accounts. -/
def TokenDir.ofAccounts (draw : String → Token) (accounts : List String) : TokenDir where
  knownTokens := some (accounts.map fun a => tokenRow (draw a) a)
  tokenFile account := if account ∈ accounts then some (draw account).text else none

section
variable {draw : String → Token} {accounts written : List String} {account : String}

theorem writtenAccounts_concat :
    writtenAccounts (accounts ++ [account]) =
      if ∃ a ∈ writtenAccounts accounts, Grep.Matches account a then writtenAccounts accounts
      else writtenAccounts accounts ++ [account] := by
  rw [writtenAccounts, List.foldl_append]
  rfl

/-- The rows stand in the order of the accounts. -/
theorem writtenAccounts_sublist (accounts : List String) :
    (writtenAccounts accounts).Sublist accounts := by
  induction accounts using List.reverseRecOn with
  | nil => exact .slnil
  | append_singleton accounts account ih =>
    rw [writtenAccounts_concat]
    split
    · exact ih.trans (List.sublist_append_left _ _)
    · exact ih.append (.refl _)

/-- Every account is written iff none is found in the row of one before it. -/
theorem forall_mem_writtenAccounts_iff (hnd : accounts.Nodup) :
    (∀ a ∈ accounts, a ∈ writtenAccounts accounts) ↔
      accounts.Pairwise fun a a' => ¬ Grep.Matches a' a := by
  induction accounts using List.reverseRecOn with
  | nil => simp
  | append_singleton accounts account ih =>
    obtain ⟨hnd, -, hnot⟩ := List.nodup_append.1 hnd
    have hlast : account ∉ accounts := fun h => hnot account h account List.mem_cons_self rfl
    simp only [List.pairwise_append, ← ih hnd, writtenAccounts_concat, List.forall_mem_append,
      List.forall_mem_singleton, List.pairwise_singleton, true_and]
    have hmem : account ∉ writtenAccounts accounts :=
      fun h => hlast ((writtenAccounts_sublist accounts).subset h)
    constructor
    · rintro ⟨hall, hacc⟩
      by_cases hfound : ∃ a ∈ writtenAccounts accounts, Grep.Matches account a
      · rw [if_pos hfound] at hacc
        exact absurd hacc hmem
      · rw [if_neg hfound] at hall
        have hwritten : ∀ a ∈ accounts, a ∈ writtenAccounts accounts := by
          intro a ha
          refine (List.mem_append.1 (hall a ha)).resolve_right fun h => ?_
          exact hlast (List.mem_singleton.1 h ▸ ha)
        exact ⟨hwritten, fun a ha hm => hfound ⟨a, hwritten a ha, hm⟩⟩
    · rintro ⟨hwritten, hnone⟩
      rw [if_neg]
      · exact ⟨fun a ha => List.mem_append_left _ (hwritten a ha), List.mem_concat_self⟩
      · rintro ⟨a, ha, hm⟩
        exact hnone a ((writtenAccounts_sublist accounts).subset ha) hm

/-- One step of the script. -/
theorem kubeGenToken_ofAccounts (hcomma : ∀ a ∈ written, ',' ∉ a.toList) :
    kubeGenToken draw (.ofAccounts draw written) account =
      .ofAccounts draw
        (if ∃ a ∈ written, Grep.Matches account a then written else written ++ [account]) := by
  have hfound : (TokenDir.ofAccounts draw written).rows.any (Grep.selects ("," ++ account ++ ",")) =
      decide (∃ a ∈ written, Grep.Matches account a) := by
    rw [Bool.eq_iff_iff, List.any_eq_true, decide_eq_true_iff]
    constructor
    · rintro ⟨row, hrow, hsel⟩
      obtain ⟨a, ha, rfl⟩ := List.mem_map.1 hrow
      exact ⟨a, ha, (selects_tokenRow (hcomma a ha)).1 hsel⟩
    · rintro ⟨a, ha, hm⟩
      exact ⟨_, List.mem_map_of_mem ha, (selects_tokenRow (hcomma a ha)).2 hm⟩
  unfold kubeGenToken
  rw [hfound]
  by_cases h : ∃ a ∈ written, Grep.Matches account a
  · rw [if_pos (decide_eq_true h), if_pos h]
    rfl
  · rw [if_neg (by simpa using h), if_neg h, TokenDir.ofAccounts]
    congr 1
    · simp [TokenDir.rows]
    · funext a
      by_cases ha : a = account
      · simp [ha]
      · simp [ha]

/-- The loop of the script, starting without rows. -/
theorem foldl_kubeGenToken (hcomma : ∀ a ∈ accounts, ',' ∉ a.toList) :
    accounts.foldl (kubeGenToken draw) (.ofAccounts draw []) =
      .ofAccounts draw (writtenAccounts accounts) := by
  induction accounts using List.reverseRecOn with
  | nil => rfl
  | append_singleton accounts account ih =>
    have hcomma' : ∀ a ∈ accounts, ',' ∉ a.toList :=
      fun a ha => hcomma a (List.mem_append_left _ ha)
    rw [List.foldl_append, ih hcomma', List.foldl_cons, List.foldl_nil, writtenAccounts_concat]
    exact kubeGenToken_ofAccounts fun a ha =>
      hcomma' a ((writtenAccounts_sublist accounts).subset ha)

/-- The first run writes the rows and files of the written accounts. -/
theorem tokensRole_empty (run : TokenRun) :
    tokensRole .empty run = .ofAccounts run.draw (writtenAccounts run.groups.accounts) := by
  rw [← foldl_kubeGenToken fun a ha => comma_not_mem_account ha]
  change run.groups.accounts.foldl (kubeGenToken run.draw) .empty = _
  -- the file comes into being with the first account
  have hne : run.groups.accounts ≠ [] := accounts_ne_nil
  obtain ⟨account, accounts, h⟩ := List.exists_cons_of_ne_nil hne
  rw [h, List.foldl_cons, List.foldl_cons]
  rfl

/-- Exactly the written accounts are served. -/
theorem serves_ofAccounts_iff (hnd : written.Nodup) (hcomma : ∀ a ∈ written, ',' ∉ a.toList) :
    (TokenDir.ofAccounts draw written).Serves account ↔ account ∈ written := by
  have hrows : (TokenDir.ofAccounts draw written).rowsOf account =
      (written.filter (· = account)).map fun a => tokenRow (draw a) a := by
    rw [TokenDir.rowsOf, TokenDir.rows, TokenDir.ofAccounts, Option.getD_some, List.filter_map]
    refine congrArg _ (List.filter_congr fun a ha => ?_)
    simp [split_tokenRow (hcomma a ha)]
  rw [TokenDir.Serves, hrows]
  constructor
  · rintro ⟨token, hrow, -⟩
    by_contra hnot
    have hnil : written.filter (· = account) = [] :=
      List.filter_eq_nil_iff.2 fun a ha heq => hnot (of_decide_eq_true heq ▸ ha)
    rw [hnil] at hrow
    cases hrow
  · intro ha
    refine ⟨draw account, ?_, by simp [TokenDir.ofAccounts, ha]⟩
    rw [List.filter_eq, List.count_eq_one_of_mem hnd ha]
    rfl

end

/-! ## All runs -/

/-- Once the file exists, no run changes it. -/
theorem afterRuns_cons (first : TokenRun) (rest : List TokenRun) :
    afterRuns (first :: rest) =
      .ofAccounts first.draw (writtenAccounts first.groups.accounts) := by
  rw [← tokensRole_empty]
  induction rest using List.reverseRecOn with
  | nil => rfl
  | append_singleton rest run ih =>
    rw [afterRuns, ← List.cons_append, List.foldl_append]
    change tokensRole (afterRuns (first :: rest)) run = _
    rw [ih, tokensRole_empty]
    rfl

/-- A directory that the runs leave serves the accounts that were written in the first of them. -/
theorem serves_afterRuns_iff {first : TokenRun} {rest : List TokenRun} {account : String} :
    (afterRuns (first :: rest)).Serves account ↔
      account ∈ writtenAccounts first.groups.accounts := by
  have hsub := writtenAccounts_sublist first.groups.accounts
  rw [afterRuns_cons]
  exact serves_ofAccounts_iff (accounts_nodup.sublist hsub)
    fun a ha => comma_not_mem_account (hsub.subset ha)

/-- After every run each host of its groups has one row and the file with the token of that row, and
the earlier rows are kept, iff the hosts of the first run are separated and no later run has
others. -/
theorem tokens_iff (runs : List TokenRun) :
    (∀ before run after, runs = before ++ run :: after →
      (∀ account ∈ run.groups.accounts, (afterRuns (before ++ [run])).Serves account) ∧
        (afterRuns before).rows <+: (afterRuns (before ++ [run])).rows) ↔
      ∀ first rest, runs = first :: rest →
        Separated first.groups.kubeControlPlane ∧ Separated first.groups.kubeNode ∧
          ∀ run ∈ rest, run.groups.kubeControlPlane ⊆ first.groups.kubeControlPlane ∧
            run.groups.kubeNode ⊆ first.groups.kubeNode := by
  constructor
  · rintro h first rest rfl
    have hfirst : ∀ a ∈ first.groups.accounts, a ∈ writtenAccounts first.groups.accounts :=
      fun a ha => serves_afterRuns_iff.1 ((h [] first rest rfl).1 a ha)
    have hsep := pairwise_accounts_iff.1 ((forall_mem_writtenAccounts_iff accounts_nodup).1 hfirst)
    refine ⟨hsep.1, hsep.2, fun run hrun => accounts_subset_iff.1 fun a ha => ?_⟩
    obtain ⟨before, after, rfl⟩ := List.append_of_mem hrun
    have hserves := (h (first :: before) run after rfl).1 a ha
    exact (writtenAccounts_sublist _).subset (serves_afterRuns_iff.1 hserves)
  · rintro h before run after rfl
    cases before with
    | nil =>
      obtain ⟨hcp, hnode, -⟩ := h run after rfl
      have hall := (forall_mem_writtenAccounts_iff accounts_nodup).2
        (pairwise_accounts_iff.2 ⟨hcp, hnode⟩)
      exact ⟨fun a ha => serves_afterRuns_iff.2 (hall a ha), List.nil_prefix⟩
    | cons first before =>
      obtain ⟨hcp, hnode, hrest⟩ := h first (before ++ run :: after) rfl
      have hall := (forall_mem_writtenAccounts_iff accounts_nodup).2
        (pairwise_accounts_iff.2 ⟨hcp, hnode⟩)
      have hsub := accounts_subset_iff.2
        (hrest run (List.mem_append_right _ List.mem_cons_self))
      refine ⟨fun a ha => serves_afterRuns_iff.2 (hall a (hsub ha)), ?_⟩
      rw [List.cons_append, afterRuns_cons, afterRuns_cons]

/-- Groups of which the first host is `node1`. -/
def exampleTokenGroups (kubeNode : List String) (hnode : kubeNode.Nodup)
    (hgood : ∀ h ∈ kubeNode, goodHostname h = true) : TokenGroups where
  kubeControlPlane := ["node1"]
  kubeNode := kubeNode
  control_plane_ne_nil := by decide
  control_plane_nodup := by decide
  node_nodup := hnode
  good h hh := (List.mem_cons.1 hh).elim (fun he => he ▸ by decide) (hgood h)

/-- A node that is added after the first run has no token, and neither has `a.b` after `a-b`. -/
theorem tokens_fails :
    let draw := fun _ : String => (⟨"t", by decide⟩ : Token)
    let one := exampleTokenGroups ["node2"] (by decide) (by decide)
    let two := exampleTokenGroups ["node2", "node3"] (by decide) (by decide)
    let dotted := exampleTokenGroups ["a-b", "a.b"] (by decide) (by decide)
    ("system:kubelet-node3" ∈ two.accounts ∧
        (afterRuns [⟨one, draw⟩, ⟨two, draw⟩]).rowsOf "system:kubelet-node3" = []) ∧
      "system:kubelet-a.b" ∈ dotted.accounts ∧
        (afterRuns [⟨dotted, draw⟩]).rowsOf "system:kubelet-a.b" = [] := by
  decide +kernel

end Kubespray
