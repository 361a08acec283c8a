import Kubespray.ControlPlane.Tokens

/-!
# The copies of the tokens

The role `kubernetes/tokens` writes the tokens on the first host of `kube_control_plane` and copies
all files from there to the other control planes of the play, if one of these has no
`known_tokens.csv` or another one. The first host differs from run to run, runs stop between the
accounts or between the hosts, and only `known_tokens.csv` is compared. `tokens_distributed` says
that this is enough: in all these histories each row of each copy stands beside the file with its
token, and a run that completes leaves its control planes with the same rows and the same tokens.

The script is one step for an account, and so is the unpacking on a host. A stop in the middle of
one of them, after a row and before the file with its token, is not among these histories.
-/

namespace Kubespray

/-! ## The role on a play -/

/-- `kube_token_dir` on every host. -/
abbrev TokenDirs : Type := String → TokenDir

/-- A run of the role: the inventory, `ansible_play_batch`, and the tokens that are drawn. -/
structure TokenPlay where
  groups : TokenGroups
  play : List String
  draw : String → Token

/-- How far a run comes: for how many accounts the script has run, and where the tokens have been
copied to. It stops between two accounts or between two hosts. -/
structure TokenOutcome where
  generated : Nat
  copied : List String

/-- All files of `src` are unpacked over those of `dst`. -/
def TokenDir.unpack (src dst : TokenDir) : TokenDir where
  knownTokens := src.knownTokens <|> dst.knownTokens
  tokenFile account := src.tokenFile account <|> dst.tokenFile account

section
variable (run : TokenPlay) (o : TokenOutcome) (dirs : TokenDirs)

/-- `groups['kube_control_plane'][0]`. -/
def TokenPlay.first : String := run.groups.kubeControlPlane.head run.groups.control_plane_ne_nil

/-- `gen_tokens`; the role runs with `kube_token_auth` only. -/
def genTokens : Bool := (dirs run.first).knownTokens.isNone

/-- `sync_tokens`. -/
def syncTokens : Bool :=
  (run.groups.kubeControlPlane.filter (· ∈ run.play)).any fun server =>
    (dirs server).knownTokens.isNone ||
      (dirs server).knownTokens != (dirs run.first).knownTokens

/-- `generate tokens for master components` and `… for node components`. -/
def generateTokens : TokenDirs :=
  if genTokens run dirs then
    Function.update dirs run.first
      ((run.groups.accounts.take o.generated).foldl (kubeGenToken run.draw) (dirs run.first))
  else dirs

/-- The script has run for all accounts, if it is to run. -/
def Generated : Prop := genTokens run dirs = true → run.groups.accounts.length ≤ o.generated

instance : Decidable (Generated run o dirs) := inferInstanceAs (Decidable (_ → _))

/-- The hosts of `Gen_tokens | Copy tokens on masters`. -/
def TokenPlay.targets : List String :=
  run.groups.kubeControlPlane.filter fun h => h ∈ run.play ∧ h ≠ run.first

/-- A run of the role. -/
def tokenPlay : TokenDirs :=
  let generated := generateTokens run o dirs
  if Generated run o dirs ∧ syncTokens run dirs = true then
    fun h => if h ∈ run.targets ∧ h ∈ o.copied then (generated run.first).unpack (generated h)
      else generated h
  else generated

/-- The run completes. -/
structure TokenPlay.Completes : Prop where
  generated : Generated run o dirs
  copied : run.targets ⊆ o.copied

end

/-- The directories after these runs. -/
def tokenPlays (runs : List (TokenPlay × TokenOutcome)) : TokenDirs :=
  runs.foldl (fun dirs run => tokenPlay run.1 run.2 dirs) fun _ => .empty

/-- Each row is the only one of its account, and its token is in the account's file. -/
def TokenDir.Whole (dir : TokenDir) : Prop :=
  ∀ row ∈ dir.rows, ∃ account token,
    ',' ∉ account.toList ∧ row = tokenRow token account ∧ dir.Serves account

section
variable {run : TokenPlay} {o : TokenOutcome} {dirs : TokenDirs} {dir src dst : TokenDir}
  {draw : String → Token} {account : String} {accounts : List String} {token : Token}

/-! ## One directory -/

theorem matches_self (s : String) : Grep.Matches s s := by
  rw [Grep.Matches]
  exact List.forall₂_same.2 fun c _ => .inr rfl

/-- What a directory serves depends on its rows and on the file of the account. -/
theorem TokenDir.Serves.congr (h : src.Serves account) (hrows : dst.rows = src.rows)
    (hfile : dst.tokenFile account = src.tokenFile account) : dst.Serves account := by
  obtain ⟨token, hrow, htoken⟩ := h
  refine ⟨token, ?_, hfile.trans htoken⟩
  rw [TokenDir.rowsOf, hrows]
  exact hrow

theorem whole_of_rows_eq_nil (h : dir.rows = []) : dir.Whole := by
  intro row hrow
  rw [h] at hrow
  cases hrow

/-- An account that the script does not find has no row. -/
theorem TokenDir.Whole.rowsOf_eq_nil (h : dir.Whole)
    (hnot : dir.rows.any (Grep.selects ("," ++ account ++ ",")) = false) :
    dir.rowsOf account = [] := by
  refine List.filter_eq_nil_iff.2 fun row hrow hfield => ?_
  obtain ⟨account', token, hcomma, rfl, -⟩ := h row hrow
  rw [split_tokenRow hcomma, decide_eq_true_eq, Option.some.injEq] at hfield
  subst hfield
  have hselects : Grep.selects ("," ++ account' ++ ",") (tokenRow token account') = true :=
    (selects_tokenRow hcomma).2 (matches_self account')
  exact (List.any_eq_false.1 hnot _ hrow) hselects

/-- The script for one account. -/
theorem TokenDir.Whole.kubeGenToken (h : dir.Whole) (hcomma : ',' ∉ account.toList) :
    (kubeGenToken draw dir account).Whole := by
  unfold Kubespray.kubeGenToken
  split
  · intro row hrow
    obtain ⟨account', token, hcomma', heq, hserves⟩ := h row hrow
    exact ⟨account', token, hcomma', heq, hserves.congr rfl rfl⟩
  · next hnot =>
    have hnone := h.rowsOf_eq_nil (Bool.eq_false_iff.2 hnot)
    have hrowsOf (a : String) : TokenDir.rowsOf
        { knownTokens := some (dir.rows ++ [tokenRow (draw account) account])
          tokenFile := Function.update dir.tokenFile account (some (draw account).text) } a =
        dir.rowsOf a ++ [tokenRow (draw account) account].filter fun row =>
          (Py.split ',' row)[1]? = some a := List.filter_append ..
    have hlast (a : String) : ([tokenRow (draw account) account].filter fun row =>
        (Py.split ',' row)[1]? = some a) =
          if account = a then [tokenRow (draw account) account] else [] := by
      rw [List.filter_singleton, split_tokenRow hcomma]
      simp
    intro row hrow
    rcases List.mem_append.1 hrow with hrow | hrow
    · obtain ⟨a, token, hcomma', rfl, tok, hrows, hfile⟩ := h row hrow
      have hne : account ≠ a := by
        rintro rfl
        rw [hnone] at hrows
        cases hrows
      refine ⟨a, token, hcomma', rfl, tok, ?_, (Function.update_of_ne hne.symm ..).trans hfile⟩
      rw [hrowsOf, hlast, if_neg hne, List.append_nil, hrows]
    · cases List.mem_singleton.1 hrow
      refine ⟨account, draw account, hcomma, rfl, draw account, ?_, Function.update_self ..⟩
      rw [hrowsOf, hlast, if_pos rfl, hnone]
      rfl

/-- The script for these accounts. -/
theorem TokenDir.Whole.foldl_kubeGenToken (h : dir.Whole)
    (hcomma : ∀ a ∈ accounts, ',' ∉ a.toList) :
    (accounts.foldl (Kubespray.kubeGenToken draw) dir).Whole := by
  induction accounts generalizing dir with
  | nil => exact h
  | cons a accounts ih =>
    exact ih (h.kubeGenToken (hcomma a List.mem_cons_self)) fun b hb =>
      hcomma b (List.mem_cons_of_mem _ hb)

/-- The script makes the file. -/
theorem knownTokens_foldl_kubeGenToken (hne : accounts ≠ []) :
    (accounts.foldl (kubeGenToken draw) dir).knownTokens.isSome = true := by
  induction accounts using List.reverseRecOn with
  | nil => exact absurd rfl hne
  | append_singleton accounts a ih =>
    rw [List.foldl_append, List.foldl_cons, List.foldl_nil, kubeGenToken]
    split <;> rfl

/-- The files of a directory with `known_tokens.csv` are unpacked. -/
theorem TokenDir.Whole.unpack (h : src.Whole) (hsome : src.knownTokens.isSome = true) :
    (src.unpack dst).Whole := by
  have hrows : (src.unpack dst).rows = src.rows := by
    obtain ⟨rows, heq⟩ := Option.isSome_iff_exists.1 hsome
    rw [TokenDir.rows, TokenDir.unpack, TokenDir.rows, heq]
    rfl
  intro row hrow
  rw [hrows] at hrow
  obtain ⟨account, token, hcomma, heq, hserves⟩ := h row hrow
  refine ⟨account, token, hcomma, heq, hserves.congr hrows ?_⟩
  obtain ⟨token', -, hfile⟩ := hserves
  change (src.tokenFile account <|> dst.tokenFile account) = src.tokenFile account
  rw [hfile]
  rfl

/-- Directories with the same rows give their accounts the same tokens. -/
theorem TokenDir.Whole.tokenFile_eq (hsrc : src.Serves account) (hdst : dst.Whole)
    (hrows : dst.rows = src.rows) :
    dst.Serves account ∧ dst.tokenFile account = src.tokenFile account := by
  obtain ⟨token, hrow, hfile⟩ := hsrc
  have hmem : tokenRow token account ∈ src.rowsOf account := hrow ▸ List.mem_cons_self
  obtain ⟨hmem, hfield⟩ := List.mem_filter.1 hmem
  obtain ⟨account', token', hcomma, heq, hserves⟩ := hdst _ (hrows ▸ hmem)
  rw [heq, split_tokenRow hcomma, decide_eq_true_eq, Option.some.injEq] at hfield
  subst hfield
  refine ⟨hserves, ?_⟩
  obtain ⟨token'', hrow', hfile'⟩ := hserves
  have hsame : [tokenRow token account'] = [tokenRow token'' account'] := by
    rw [← hrow, ← hrow', TokenDir.rowsOf, TokenDir.rowsOf, hrows]
  have htext : token.text = token''.text := by
    have hrow := List.singleton_inj.1 hsame
    simp only [tokenRow, String.append_assoc] at hrow
    exact (String.append_left_inj _).1 hrow
  rw [hfile', hfile, htext]

/-! ## One run -/

theorem generateTokens_of_ne {h : String} (hne : h ≠ run.first) :
    generateTokens run o dirs h = dirs h := by
  rw [generateTokens]
  split
  · exact Function.update_of_ne hne ..
  · rfl

/-- The first host has `known_tokens.csv` once the script has run. -/
theorem isSome_generateTokens (hgen : Generated run o dirs) :
    (generateTokens run o dirs run.first).knownTokens.isSome = true := by
  rw [generateTokens]
  split
  · next hnone =>
    rw [Function.update_self, List.take_of_length_le (hgen hnone)]
    exact knownTokens_foldl_kubeGenToken accounts_ne_nil
  · next hsome =>
    rw [genTokens] at hsome
    cases h : (dirs run.first).knownTokens with
    | none => exact absurd (by rw [h]; rfl) hsome
    | some rows => rfl

theorem whole_generateTokens (h : ∀ host, (dirs host).Whole) (host : String) :
    (generateTokens run o dirs host).Whole := by
  by_cases hfirst : host = run.first
  · subst hfirst
    rw [generateTokens]
    split
    · rw [Function.update_self]
      exact (h run.first).foldl_kubeGenToken fun a ha =>
        comma_not_mem_account (List.mem_of_mem_take ha)
    · exact h run.first
  · rw [generateTokens_of_ne hfirst]
    exact h host

/-- A run keeps each row beside the file with its token. -/
theorem whole_tokenPlay (h : ∀ host, (dirs host).Whole) (host : String) :
    (tokenPlay run o dirs host).Whole := by
  unfold tokenPlay
  split
  · next hsync =>
    dsimp only
    split
    · exact (whole_generateTokens h run.first).unpack (isSome_generateTokens hsync.1)
    · exact whole_generateTokens h host
  · exact whole_generateTokens h host

/-- The first host is not written to by the copies. -/
theorem tokenPlay_first (run : TokenPlay) (o : TokenOutcome) (dirs : TokenDirs) :
    tokenPlay run o dirs run.first = generateTokens run o dirs run.first := by
  have hnot : run.first ∉ run.targets := by simp [TokenPlay.targets]
  unfold tokenPlay
  split
  · exact if_neg fun h => hnot h.1
  · rfl

/-- Without `sync_tokens` the control planes of the play have the rows of the first one. -/
theorem knownTokens_of_not_sync (hsync : syncTokens run dirs = false) {server : String}
    (hserver : server ∈ run.groups.kubeControlPlane) (hplay : server ∈ run.play) :
    (dirs server).knownTokens.isSome = true ∧
      (dirs server).knownTokens = (dirs run.first).knownTokens := by
  have hnot := List.any_eq_false.1 hsync server
    (List.mem_filter.2 ⟨hserver, decide_eq_true hplay⟩)
  rw [Bool.or_eq_true, not_or, bne_iff_ne, not_not] at hnot
  exact ⟨by simpa [Option.isSome_iff_ne_none] using hnot.1, hnot.2⟩

/-- A run that completes leaves its control planes with the rows of the first one. -/
theorem knownTokens_of_completes (h : run.Completes o dirs) {server : String}
    (hserver : server ∈ run.groups.kubeControlPlane) (hplay : server ∈ run.play) :
    (tokenPlay run o dirs server).knownTokens =
      (tokenPlay run o dirs run.first).knownTokens := by
  by_cases hfirst : server = run.first
  · rw [hfirst]
  have htarget : server ∈ run.targets :=
    List.mem_filter.2 ⟨hserver, decide_eq_true ⟨hplay, hfirst⟩⟩
  rw [tokenPlay_first]
  by_cases hsync : syncTokens run dirs = true
  · have hunpacked : tokenPlay run o dirs server =
        (generateTokens run o dirs run.first).unpack (generateTokens run o dirs server) :=
      (congrFun (if_pos ⟨h.generated, hsync⟩) server).trans
        (if_pos ⟨htarget, h.copied htarget⟩)
    obtain ⟨rows, hrows⟩ := Option.isSome_iff_exists.1 (isSome_generateTokens h.generated)
    rw [hunpacked, TokenDir.unpack, hrows]
    rfl
  · have hsame : tokenPlay run o dirs server = generateTokens run o dirs server :=
      congrFun (if_neg fun hboth => hsync hboth.2) server
    obtain ⟨hsome, heq⟩ := knownTokens_of_not_sync (Bool.eq_false_iff.2 hsync) hserver hplay
    have hgen : ¬ genTokens run dirs = true := by
      rw [genTokens, ← heq, Option.isNone_iff_eq_none]
      exact Option.isSome_iff_ne_none.1 hsome
    rw [hsame, generateTokens, if_neg hgen]
    exact heq

/-! ## All runs -/

theorem whole_tokenPlays (runs : List (TokenPlay × TokenOutcome)) (host : String) :
    (tokenPlays runs host).Whole := by
  induction runs using List.reverseRecOn generalizing host with
  | nil => exact whole_of_rows_eq_nil rfl
  | append_singleton runs run ih =>
    rw [tokenPlays, List.foldl_append]
    exact whole_tokenPlay ih host

/-- What a run that completes leaves on a control plane of the play. -/
structure TokensCopied (run : TokenPlay) (dirs : TokenDirs) (server : String) : Prop where
  exist : (dirs server).knownTokens.isSome = true
  rows : (dirs server).knownTokens = (dirs run.first).knownTokens
  tokens : ∀ account, (dirs run.first).Serves account →
    (dirs server).Serves account ∧
      (dirs server).tokenFile account = (dirs run.first).tokenFile account

/-- After any runs, which may stop between two accounts or two hosts and have any inventories, each
row of each host is the only one of its account and has its token in the account's file; and a run
that completes after them leaves all control planes of its play with the rows and the tokens of the
first one. -/
theorem tokens_distributed (runs : List (TokenPlay × TokenOutcome)) :
    (∀ host, (tokenPlays runs host).Whole) ∧
      ∀ run o, run.Completes o (tokenPlays runs) → ∀ server ∈ run.groups.kubeControlPlane,
        server ∈ run.play → TokensCopied run (tokenPlay run o (tokenPlays runs)) server := by
  refine ⟨whole_tokenPlays runs, fun run o hcompletes server hserver hplay => ?_⟩
  have hwhole : ∀ host, (tokenPlay run o (tokenPlays runs) host).Whole :=
    whole_tokenPlay (whole_tokenPlays runs)
  have hrows := knownTokens_of_completes hcompletes hserver hplay
  have hsome : (tokenPlay run o (tokenPlays runs) run.first).knownTokens.isSome = true := by
    rw [tokenPlay_first]
    exact isSome_generateTokens hcompletes.generated
  refine ⟨hrows ▸ hsome, hrows, fun account hserves => ?_⟩
  refine TokenDir.Whole.tokenFile_eq hserves (hwhole server) ?_
  rw [TokenDir.rows, TokenDir.rows, hrows]

end

/-- Two control planes, of which the one is first. -/
def twoControlPlanes (first second : String) (hne : first ≠ second)
    (hgood : ∀ h ∈ [first, second], goodHostname h = true) : TokenGroups where
  kubeControlPlane := [first, second]
  kubeNode := []
  control_plane_ne_nil := by simp
  control_plane_nodup := by simpa using hne
  node_nodup := List.nodup_nil
  good h hh := hgood h (by simpa using hh)

/-- `node2` joins after a run for `node1` alone, and gets the token of `node1`. -/
theorem tokens_distributed_second :
    let draw := fun _ : String => (⟨"t", by decide⟩ : Token)
    let alone : TokenPlay := ⟨exampleTokenGroups [] (by decide) (by decide), ["node1"], draw⟩
    let both : TokenPlay :=
      ⟨twoControlPlanes "node1" "node2" (by decide) (by decide), ["node1", "node2"], draw⟩
    TokensCopied both (tokenPlay both ⟨0, ["node2"]⟩ (tokenPlays [(alone, ⟨1, []⟩)])) "node2" := by
  intro draw alone both
  refine (tokens_distributed [(alone, ⟨1, []⟩)]).2 both ⟨0, ["node2"]⟩ ⟨?_, ?_⟩ "node2" ?_ ?_
  · decide
  · decide
  · decide
  · decide

end Kubespray
