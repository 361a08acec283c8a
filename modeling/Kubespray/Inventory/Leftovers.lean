import Kubespray.Inventory.Additions

/-!
# What an argument takes from the arguments before it

The local variables `hostname`, `ip` and `access_ip` of the loop of `build_hostnames` keep their
values from one argument to the next. An argument that sets them, or does not read them, has an
effect that depends on the host list and the next id alone (`outcome_eq`). A bare name, which starts
with a letter and has no comma, reads them as they are: it stores the host that an earlier argument
left, or raises `UnboundLocalError`. `leftovers_iff` says when this makes a difference.
-/

namespace Kubespray

open Py

/-- The argument starts with a letter and has no comma. -/
def IsBareName (env : Env) (host : String) : Prop :=
  host.toList.head?.any env.chars.isalpha = true ∧ ',' ∉ host.toList

/-- The ip that is left over is the ip of a host, so that a bare name is skipped. -/
def LeftSkips (s : Locals) : Prop := ∃ ip, s.ip = some ip ∧ existsIp s.allHosts ip = .ok true

/-- All three variables are left over, and no host has the ip, so that a bare name stores them. -/
def LeftStores (s : Locals) (hostname ip accessIp : String) : Prop :=
  s.hostname = some hostname ∧ s.ip = some ip ∧ s.accessIp = some accessIp ∧
    existsIp s.allHosts ip = .ok false

/-- The host list after an argument. -/
def outcome (env : Env) (s : Locals) (host : String) : Except Exc (OrdDict String Value) :=
  Locals.allHosts <$> argument env s host

section
variable {env : Env} {s s₁ s₂ : Locals} {host : String} {result : OrdDict String Value}

/-- The host list after a further argument. -/
theorem buildHostnames_concat {args : List String} {load : Bool} {cfg : Value}
    (h : changedLocals env args load cfg = .ok s) :
    buildHostnames env (args ++ [host]) load cfg = outcome env s host := by
  simp only [changedLocals, bind_eq_ok] at h
  obtain ⟨s₀, hs₀, h⟩ := h
  rw [buildHostnames, changedLocals, hs₀, ok_bind, List.foldlM_append, h, ok_bind, List.foldlM_cons,
    outcome]
  cases argument env s host <;> rfl

/-! ## Arguments that are no bare names -/

variable {hosts : OrdDict String Value} {id : Nat}
  {hostname₁ ip₁ accessIp₁ hostname₂ ip₂ accessIp₂ :
  Option String}

/-- A deletion reads the host list. -/
theorem deletion_outcome (realhost : String) :
    Locals.allHosts <$> deletion ⟨hosts, id, hostname₁, ip₁, accessIp₁⟩ realhost =
      Locals.allHosts <$> deletion ⟨hosts, id, hostname₂, ip₂, accessIp₂⟩ realhost := by
  unfold deletion
  dsimp only
  cases existsHostname hosts realhost with
  | true => rfl
  | false =>
    cases existsIp hosts realhost with
    | error e => rfl
    | ok b =>
      cases b with
      | false => rfl
      | true =>
        cases deleteHostByIp hosts realhost with
        | error e => rfl
        | ok d => rfl

/-- An address sets what it reads. -/
theorem ipArgument_outcome :
    Locals.allHosts <$> ipArgument env ⟨hosts, id, hostname₁, ip₁, accessIp₁⟩ host =
      Locals.allHosts <$> ipArgument env ⟨hosts, id, hostname₂, ip₂, accessIp₂⟩ host := by
  unfold ipArgument
  cases ipParts host with
  | error e => rfl
  | ok parts =>
    simp only [ok_bind]
    cases existsHostname hosts host with
    | true => rfl
    | false =>
      cases existsIp hosts parts.1 with
      | error e => rfl
      | ok b =>
        cases b with
        | true => rfl
        | false =>
          cases nextHost env id parts.2 with
          | error e => rfl
          | ok r => rfl

/-- A name with a comma sets what is read. -/
theorem nameParts_congr (hcomma : ',' ∈ host.toList) :
    nameParts ⟨hosts, id, hostname₁, ip₁, accessIp₁⟩ host =
      nameParts ⟨hosts, id, hostname₂, ip₂, accessIp₂⟩ host := by
  rw [nameParts, nameParts, if_pos hcomma, if_pos hcomma]

/-- Other arguments do not depend on what is left over. -/
theorem outcome_eq (hbare : ¬ IsBareName env host) (hhosts : s₁.allHosts = s₂.allHosts)
    (hid : s₁.nextHostId = s₂.nextHostId) : outcome env s₁ host = outcome env s₂ host := by
  obtain ⟨hosts, id, hostname₁, ip₁, accessIp₁⟩ := s₁
  obtain ⟨hosts₂, id₂, hostname₂, ip₂, accessIp₂⟩ := s₂
  cases hhosts
  cases hid
  rw [outcome, outcome, argument, argument]
  cases hl : host.toList with
  | nil => rfl
  | cons c cs =>
    dsimp only
    split
    · exact deletion_outcome _
    · split
      · exact ipArgument_outcome
      · split
        · next hletter =>
          have hcomma : ',' ∈ host.toList := by
            by_contra hcomma
            exact hbare ⟨by rw [hl]; simpa using hletter, hcomma⟩
          rw [nameArgument, nameArgument, nameParts_congr hcomma]
        · rfl

/-! ## Bare names -/

/-- A bare name that is a host name is skipped. -/
theorem outcome_known (hbare : IsBareName env host) (hknown : host ∈ s.allHosts.keys) :
    outcome env s host = .ok s.allHosts := by
  have hex : existsHostname s.allHosts host = true := decide_eq_true hknown
  rw [outcome, AddArg.argument_of_letter hbare.1, nameArgument, nameParts, if_neg hbare.2, ok_bind,
    hex]
  rfl

/-- Another bare name stores what is left over, unless its ip is there. -/
theorem outcome_bareName (hbare : IsBareName env host) (hnew : host ∉ s.allHosts.keys) :
    outcome env s host = .ok result ↔
      LeftSkips s ∧ result = s.allHosts ∨
        ∃ hostname ip accessIp, LeftStores s hostname ip accessIp ∧
          result = s.allHosts.insert hostname (hostOpts accessIp ip) := by
  obtain ⟨hosts, id, hostname?, ip?, accessIp?⟩ := s
  have hex : existsHostname hosts host = false := decide_eq_false hnew
  rw [outcome, AddArg.argument_of_letter hbare.1, nameArgument, nameParts, if_neg hbare.2, ok_bind,
    hex]
  simp only [LeftSkips, LeftStores]
  cases ip? with
  | none => simp [readLocal]
  | some ip =>
    cases hip : existsIp hosts ip with
    | error e => simp [readLocal, hip]
    | ok b =>
      cases b with
      | true => simp [readLocal, hip, eq_comm]
      | false =>
        cases hostname? with
        | none => cases accessIp? <;> simp [readLocal, hip]
        | some hostname => cases accessIp? <;> simp [readLocal, hip, eq_comm]

/-- A host with a new ip changes the list. -/
theorem insert_ne {ip accessIp hostname : String} (hnew : carriesIp hosts ip = false) :
    hosts.insert hostname (hostOpts accessIp ip) ≠ hosts := by
  intro he
  have hlookup : (hosts.insert hostname (hostOpts accessIp ip)).get? hostname =
      some (hostOpts accessIp ip) := Assoc.lookup_insert_self _ _ _
  rw [he] at hlookup
  have hno := carriesIp_eq_false.1 hnew _ (OrdDict.get?_eq_some.1 hlookup)
  rw [hasIp_hostOpts] at hno
  simp at hno

/-- Two hosts with new ips change the list in two ways, unless they are the same. -/
theorem insert_inj {ip accessIp hostname ip' accessIp' hostname' : String}
    (hnew : carriesIp hosts ip = false)
    (he : hosts.insert hostname (hostOpts accessIp ip) =
      hosts.insert hostname' (hostOpts accessIp' ip')) :
    hostname' = hostname ∧ ip' = ip ∧ accessIp' = accessIp := by
  have hlookup : (hosts.insert hostname (hostOpts accessIp ip)).get? hostname =
      some (hostOpts accessIp ip) := Assoc.lookup_insert_self _ _ _
  rw [he] at hlookup
  change Assoc.lookup hostname (Assoc.insert hostname' (hostOpts accessIp' ip') hosts.items) = _
    at hlookup
  rw [Assoc.lookup_insert] at hlookup
  split at hlookup
  · next hname =>
    simp only [hostOpts, Option.some.injEq, Value.dict.injEq, List.cons.injEq, Prod.mk.injEq,
      Value.str.injEq] at hlookup
    exact ⟨hname, hlookup.2.1.2, hlookup.1.2⟩
  · have hno := carriesIp_eq_false.1 hnew _ (OrdDict.get?_eq_some.1 hlookup)
    rw [hasIp_hostOpts] at hno
    simp at hno

/-- A bare name has one effect in two states with one host list iff the same is left over in
both. -/
theorem outcome_congr_iff (hbare : IsBareName env host) (hnew : host ∉ s₁.allHosts.keys)
    (hhosts : s₁.allHosts = s₂.allHosts) :
    (∀ result, outcome env s₁ host = .ok result ↔ outcome env s₂ host = .ok result) ↔
      (LeftSkips s₁ ↔ LeftSkips s₂) ∧ ∀ hostname ip accessIp,
        LeftStores s₁ hostname ip accessIp ↔ LeftStores s₂ hostname ip accessIp := by
  -- what one state does, the other one can do for the same reason only
  have hskips : ∀ {s s' : Locals}, s.allHosts = s'.allHosts → host ∉ s.allHosts.keys →
      (∀ result, outcome env s host = .ok result → outcome env s' host = .ok result) →
      LeftSkips s → LeftSkips s' := by
    intro s s' he hnew hsame hleft
    have hkept := hsame s.allHosts ((outcome_bareName hbare hnew).2 (.inl ⟨hleft, rfl⟩))
    rcases (outcome_bareName hbare (he ▸ hnew)).1 hkept with ⟨hleft', -⟩ |
      ⟨_, _, _, hleft', hstored⟩
    · exact hleft'
    · rw [he] at hstored
      exact absurd hstored.symm (insert_ne (carriesIp_of_existsIp hleft'.2.2.2))
  have hstores : ∀ {s s' : Locals}, s.allHosts = s'.allHosts → host ∉ s.allHosts.keys →
      (∀ result, outcome env s host = .ok result → outcome env s' host = .ok result) →
      ∀ {hostname ip accessIp}, LeftStores s hostname ip accessIp →
        LeftStores s' hostname ip accessIp := by
    intro s s' he hnew hsame hostname ip accessIp hleft
    have hcarry := carriesIp_of_existsIp hleft.2.2.2
    have hstored := hsame _ ((outcome_bareName hbare hnew).2 (.inr ⟨_, _, _, hleft, rfl⟩))
    rcases (outcome_bareName hbare (he ▸ hnew)).1 hstored with ⟨-, hkept⟩ | ⟨_, _, _, hleft', heq⟩
    · rw [← he] at hkept
      exact absurd hkept (insert_ne hcarry)
    · rw [← he] at heq
      obtain ⟨rfl, rfl, rfl⟩ := insert_inj hcarry heq
      exact hleft'
  constructor
  · intro hsame
    have hnew' : host ∉ s₂.allHosts.keys := hhosts ▸ hnew
    exact ⟨⟨hskips hhosts hnew fun r => (hsame r).1, hskips hhosts.symm hnew' fun r => (hsame r).2⟩,
      fun _ _ _ => ⟨hstores hhosts hnew fun r => (hsame r).1,
        hstores hhosts.symm hnew' fun r => (hsame r).2⟩⟩
  · rintro ⟨hskip, hstore⟩ result
    rw [outcome_bareName hbare hnew, outcome_bareName hbare (hhosts ▸ hnew), hskip, hhosts]
    simp only [hstore]

/-- A bare name adds no host iff it is a host name or nothing is left over that it stores. -/
theorem outcome_kept_iff (hbare : IsBareName env host) :
    (∀ result, outcome env s host = .ok result → result = s.allHosts) ↔
      host ∈ s.allHosts.keys ∨ ∀ hostname ip accessIp, ¬ LeftStores s hostname ip accessIp := by
  by_cases hknown : host ∈ s.allHosts.keys
  · have hkept : ∀ result, outcome env s host = .ok result → result = s.allHosts := by
      intro result h
      cases h.symm.trans (outcome_known hbare hknown)
      rfl
    exact iff_of_true hkept (.inl hknown)
  · simp only [outcome_bareName hbare hknown, hknown, false_or]
    constructor
    · intro hkept hostname ip accessIp hleft
      exact insert_ne (carriesIp_of_existsIp hleft.2.2.2)
        (hkept _ (.inr ⟨hostname, ip, accessIp, hleft, rfl⟩))
    · rintro hnone result (⟨-, h⟩ | ⟨hostname, ip, accessIp, hleft, -⟩)
      · exact h
      · exact absurd hleft (hnone hostname ip accessIp)

end

/-- A host that was added and deleted again is what a bare name stores. -/
theorem leftovers_fails :
    ∃ s₁ s₂, changedLocals {} ["node5,10.0.0.5", "-node5"] true loadedCfg = .ok s₁ ∧
      changedLocals {} [] true loadedCfg = .ok s₂ ∧
      s₁.allHosts = s₂.allHosts ∧ s₁.nextHostId = s₂.nextHostId ∧
      buildHostnames {} ["node5,10.0.0.5", "-node5", "foo"] true loadedCfg =
        .ok (loadedHost.insert "node5" (hostOpts "10.0.0.5" "10.0.0.5")) ∧
      buildHostnames {} ["foo"] true loadedCfg = .error (.unboundLocalError "ip") :=
  ⟨_, _, rfl, rfl, rfl, rfl, rfl, rfl⟩

/-- After two lists of arguments that leave one host list and one next id, an argument has the same
outcome iff it is no bare name of a new host or the same is left over; and a bare name adds no host
iff nothing is left over that it stores. -/
theorem leftovers_iff {env : Env} {load : Bool} {cfg : Value} {before before' : List String}
    {host : String} {s s' : Locals} (h : changedLocals env before load cfg = .ok s)
    (h' : changedLocals env before' load cfg = .ok s') (hhosts : s.allHosts = s'.allHosts)
    (hid : s.nextHostId = s'.nextHostId) :
    ((∀ result, buildHostnames env (before ++ [host]) load cfg = .ok result ↔
        buildHostnames env (before' ++ [host]) load cfg = .ok result) ↔
      (IsBareName env host → host ∉ s.allHosts.keys → (LeftSkips s ↔ LeftSkips s') ∧
        ∀ hostname ip accessIp, LeftStores s hostname ip accessIp ↔
          LeftStores s' hostname ip accessIp)) ∧
    (IsBareName env host →
      ((∀ result, buildHostnames env (before ++ [host]) load cfg = .ok result →
          result = s.allHosts) ↔
        host ∈ s.allHosts.keys ∨
          ∀ hostname ip accessIp, ¬ LeftStores s hostname ip accessIp)) := by
  rw [buildHostnames_concat h, buildHostnames_concat h']
  refine ⟨?_, outcome_kept_iff⟩
  by_cases hbare : IsBareName env host
  · by_cases hknown : host ∈ s.allHosts.keys
    · have hsame : outcome env s host = outcome env s' host := by
        rw [outcome_known hbare hknown, outcome_known hbare (hhosts ▸ hknown), hhosts]
      refine iff_of_true (fun result => by rw [hsame]) fun _ hnew => absurd hknown hnew
    · rw [outcome_congr_iff hbare hknown hhosts]
      exact ⟨fun hsame _ _ => hsame, fun hsame => hsame hbare hknown⟩
  · have hsame := outcome_eq hbare hhosts hid
    exact iff_of_true (fun result => by rw [hsame]) fun h => absurd h hbare

/-- An address is not affected. -/
theorem leftovers_address : ∃ result,
    buildHostnames {} ["node5,10.0.0.5", "-node5", "10.0.0.7"] true loadedCfg = .ok result ∧
      buildHostnames {} ["10.0.0.7"] true loadedCfg = .ok result := by
  obtain ⟨s, hs⟩ : ∃ s, changedLocals {} ["node5,10.0.0.5", "-node5"] true loadedCfg = .ok s :=
    ⟨_, rfl⟩
  obtain ⟨s', hs'⟩ : ∃ s, changedLocals {} [] true loadedCfg = .ok s := ⟨_, rfl⟩
  have hsame := (@leftovers_iff {} true loadedCfg _ _ "10.0.0.7" s s' hs hs'
    (by cases hs; cases hs'; rfl) (by cases hs; cases hs'; rfl)).1.2
      fun hbare => absurd hbare.1 (by decide)
  exact ⟨_, rfl, (hsame _).1 rfl⟩

end Kubespray
