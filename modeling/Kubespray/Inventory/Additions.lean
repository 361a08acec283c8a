import Kubespray.Inventory.AddForms

/-!
# What adding promises

`build_hostnames` looks for the text of an argument among the host names, not for the name that it
will store. So an argument may overwrite a host that was loaded or that an earlier argument added,
and an address that is spelled like a host name is skipped. `AddsSafely` is what a call promises;
`NextSafe` says of one iteration of the loop that none of this happens. `addsSafely_iff` says that
the calls with the first arguments of a list keep the promise as long as every iteration is safe.
`addresses_added` is the whole effect of a list of addresses.
-/

namespace Kubespray

open Py

section
variable {env : Env} {loaded result : OrdDict String Value} {id : Nat}

/-- The names that the arguments give are distinct, and none is the name of a loaded host. -/
def NamesNew (loaded : OrdDict String Value) (args : List (AddArg env)) : Prop :=
  (args.filterMap AddArg.name).Nodup ∧ ∀ name ∈ args.filterMap AddArg.name, name ∉ loaded.keys

/-- The loaded hosts are kept, and if the names are new, every ip of the arguments is the ip of
exactly one host. -/
structure AddsSafely (loaded : OrdDict String Value) (args : List (AddArg env))
    (result : OrdDict String Value) : Prop where
  kept : ∀ p ∈ loaded.items, p ∈ result.items
  oneEach : NamesNew loaded args → ∀ a ∈ args, ∃! p, p ∈ result.items ∧ hasIp p.2 a.ip = true

/-- In the state with the host list `hosts` and the next id `id`, after the arguments `pre`, the
argument `a` overwrites no loaded host; and while the names are new, it overwrites no host at all,
and is not taken for a host name unless its ip is there. -/
structure NextSafe (loaded : OrdDict String Value) (pre : List (AddArg env)) (a : AddArg env)
    (hosts : OrdDict String Value) (id : Nat) : Prop where
  notLoaded : a.skipped hosts = false → a.hostname id ∉ loaded.keys
  newName : NamesNew loaded (pre ++ [a]) → a.skipped hosts = false → a.hostname id ∉ hosts.keys
  carried : NamesNew loaded (pre ++ [a]) → a.text ∈ hosts.keys → carriesIp hosts a.ip = true

/-! ## The loop -/

namespace AddArg

theorem adds_concat (pre : List (AddArg env)) (a : AddArg env) (r : OrdDict String Value × Nat) :
    adds (pre ++ [a]) r = a.add (adds pre r) := by
  rw [adds, List.foldl_append]
  rfl

/-- The ips stay distinct. -/
theorem ipsDistinct_adds (args : List (AddArg env)) (hd : IpsDistinct loaded) :
    IpsDistinct (adds args (loaded, id)).1 := by
  induction args using List.reverseRecOn with
  | nil => exact hd
  | append_singleton args a ih =>
    rw [adds_concat, add]
    split
    · exact ih
    · next hs =>
      have hnew : carriesIp (adds args (loaded, id)).1 a.ip = false := by
        simp only [skipped, Bool.or_eq_true, not_or, Bool.not_eq_true] at hs
        exact hs.2
      exact ih.insert hnew

/-- A host was loaded or has the options of an argument. -/
theorem mem_adds {args : List (AddArg env)} {p : String × Value}
    (hp : p ∈ (adds args (loaded, id)).1.items) :
    p ∈ loaded.items ∨ ∃ a ∈ args, p.2 = a.opts := by
  induction args using List.reverseRecOn with
  | nil => exact .inl hp
  | append_singleton args a ih =>
    have hold : p ∈ (adds args (loaded, id)).1.items →
        p ∈ loaded.items ∨ ∃ b ∈ args ++ [a], p.2 = b.opts := by
      intro hp
      rcases ih hp with hp | ⟨b, hb, he⟩
      · exact .inl hp
      · exact .inr ⟨b, List.mem_append_left _ hb, he⟩
    rw [adds_concat, add] at hp
    split at hp
    · exact hold hp
    · rcases Assoc.mem_insert hp with ⟨he, -⟩ | hp
      · exact .inr ⟨a, List.mem_append_right _ (.head _), he⟩
      · exact hold hp

end AddArg

/-- With distinct ips, an ip is carried by one host or by none. -/
theorem existsUnique_iff_carriesIp {ip : String} (hd : IpsDistinct result) :
    (∃! p, p ∈ result.items ∧ hasIp p.2 ip = true) ↔ carriesIp result ip = true := by
  rw [carriesIp_iff]
  constructor
  · rintro ⟨p, hp, -⟩
    exact ⟨p, hp⟩
  · rintro ⟨p, hp, hi⟩
    exact ⟨p, ⟨hp, hi⟩, fun q ⟨hq, hqi⟩ => hd.eq_of_hasIp hq hp hqi hi⟩

/-! ## One argument -/

namespace AddArg

theorem skipped_eq_false {a : AddArg env} {hosts : OrdDict String Value} :
    a.skipped hosts = false ↔ a.text ∉ hosts.keys ∧ carriesIp hosts a.ip = false := by
  simp [skipped, existsHostname]

theorem add_of_skipped {a : AddArg env} {r : OrdDict String Value × Nat}
    (h : a.skipped r.1 = true) : a.add r = r := if_pos h

/-- An argument that is not skipped is stored. -/
theorem add_of_stored {a : AddArg env} {r : OrdDict String Value × Nat}
    (h : a.skipped r.1 = false) :
    a.add r = (r.1.insert (a.hostname r.2) a.opts, a.nextId r.2) := by
  rw [add, if_neg (by rw [h]; decide)]

/-- What is stored under the name of a host with another ip is not that host. -/
theorem not_mem_insert_opts {a : AddArg env} {hosts : OrdDict String Value} {p : String × Value}
    (hnew : carriesIp hosts a.ip = false) (hp : p ∈ hosts.items) :
    p ∉ (hosts.insert p.1 a.opts).items := by
  intro hm
  have hself : (p.1, a.opts) ∈ (hosts.insert p.1 a.opts).items :=
    Assoc.mem_of_lookup (Assoc.lookup_insert_self _ _ _)
  have he : p.2 = a.opts := Assoc.eq_of_mem (hosts.insert p.1 a.opts).nodup hm hself
  have hno := carriesIp_eq_false.1 hnew p hp
  rw [he, opts, hasIp_hostOpts, beq_self_eq_true] at hno
  cases hno

end AddArg

section
variable {pre : List (AddArg env)} {a : AddArg env}

theorem NamesNew.of_concat (h : NamesNew loaded (pre ++ [a])) : NamesNew loaded pre := by
  unfold NamesNew at h
  rw [List.filterMap_append, List.nodup_append] at h
  exact ⟨h.1.1, fun name hn => h.2 name (List.mem_append_left _ hn)⟩

/-- If a call keeps the promise and the call with one more argument does, then this argument was
safe. -/
theorem AddsSafely.nextSafe (hd : IpsDistinct loaded)
    (h : AddsSafely loaded pre (AddArg.adds pre (loaded, id)).1)
    (h' : AddsSafely loaded (pre ++ [a]) (a.add (AddArg.adds pre (loaded, id))).1) :
    NextSafe loaded pre a (AddArg.adds pre (loaded, id)).1 (AddArg.adds pre (loaded, id)).2 := by
  have hmem : ∀ p, p ∈ (AddArg.adds pre (loaded, id)).1.items → p ∈ loaded.items ∨
      ∃ b ∈ pre, p.2 = b.opts := fun p hp => AddArg.mem_adds hp
  have hdist : IpsDistinct (AddArg.adds pre (loaded, id)).1 := AddArg.ipsDistinct_adds pre hd
  generalize AddArg.adds pre (loaded, id) = r at h h' hmem hdist
  have hnotLoaded : a.skipped r.1 = false → a.hostname r.2 ∉ loaded.keys := by
    intro hs hm
    obtain ⟨p, hp, hk⟩ := List.mem_map.1 hm
    have hp' := h'.kept p hp
    rw [AddArg.add_of_stored hs, ← hk] at hp'
    exact AddArg.not_mem_insert_opts (AddArg.skipped_eq_false.1 hs).2 (h.kept p hp) hp'
  refine ⟨hnotLoaded, fun hnn hs hm => ?_, fun hnn hm => ?_⟩
  · obtain ⟨p, hp, hk⟩ := List.mem_map.1 hm
    have hnew := (AddArg.skipped_eq_false.1 hs).2
    rcases hmem p hp with hl | ⟨b, hb, he⟩
    · exact hnotLoaded hs (hk ▸ Assoc.mem_keys_of_mem hl)
    · -- the overwritten host was the only one with the ip of the earlier argument `b`
      have hpb : hasIp p.2 b.ip = true := by rw [he, AddArg.opts, hasIp_hostOpts, beq_self_eq_true]
      obtain ⟨q, ⟨hq, hqb⟩, -⟩ := h'.oneEach hnn b (List.mem_append_left _ hb)
      rw [AddArg.add_of_stored hs, ← hk] at hq
      rcases Assoc.mem_insert hq with ⟨hqa, -⟩ | hq'
      · rw [hqa, AddArg.opts, hasIp_hostOpts, beq_iff_eq] at hqb
        have hno := carriesIp_eq_false.1 hnew p hp
        rw [hqb, hpb] at hno
        cases hno
      · have hqp : q = p := hdist.eq_of_hasIp hq' hp hqb hpb
        rw [hqp] at hq
        exact AddArg.not_mem_insert_opts hnew hp hq
  · have hs : a.skipped r.1 = true := by
      rw [← Bool.not_eq_false, AddArg.skipped_eq_false]
      exact fun h => h.1 hm
    have hone := h'.oneEach hnn a (List.mem_append_right _ (.head _))
    rw [AddArg.add_of_skipped hs] at hone
    exact (existsUnique_iff_carriesIp hdist).1 hone

/-- A safe argument carries the promise on. -/
theorem AddsSafely.concat (hd : IpsDistinct loaded)
    (h : AddsSafely loaded pre (AddArg.adds pre (loaded, id)).1)
    (hn : NextSafe loaded pre a (AddArg.adds pre (loaded, id)).1
      (AddArg.adds pre (loaded, id)).2) :
    AddsSafely loaded (pre ++ [a]) (a.add (AddArg.adds pre (loaded, id))).1 := by
  have hdist : IpsDistinct (AddArg.adds pre (loaded, id)).1 := AddArg.ipsDistinct_adds pre hd
  have hdist' : IpsDistinct (a.add (AddArg.adds pre (loaded, id))).1 := by
    rw [← AddArg.adds_concat]
    exact AddArg.ipsDistinct_adds (pre ++ [a]) hd
  generalize AddArg.adds pre (loaded, id) = r at h hn hdist hdist'
  have hold : NamesNew loaded (pre ++ [a]) → ∀ b ∈ pre, carriesIp r.1 b.ip = true :=
    fun hnn b hb => (existsUnique_iff_carriesIp hdist).1 (h.oneEach hnn.of_concat b hb)
  cases hs : a.skipped r.1 with
  | true =>
    rw [AddArg.add_of_skipped hs] at hdist' ⊢
    refine ⟨h.kept, fun hnn b hb => (existsUnique_iff_carriesIp hdist).2 ?_⟩
    rcases List.mem_append.1 hb with hb | hb
    · exact hold hnn b hb
    · obtain rfl := List.mem_singleton.1 hb
      rw [AddArg.skipped, Bool.or_eq_true] at hs
      rcases hs with hs | hs
      · exact hn.carried hnn (of_decide_eq_true hs)
      · exact hs
  | false =>
    rw [AddArg.add_of_stored hs] at hdist' ⊢
    constructor
    · intro p hp
      refine Assoc.mem_insert_of_ne (fun he => ?_) (h.kept p hp)
      exact hn.notLoaded hs (he ▸ Assoc.mem_keys_of_mem hp)
    · intro hnn b hb
      refine (existsUnique_iff_carriesIp hdist').2 ?_
      have hitems : (r.1.insert (a.hostname r.2) a.opts).items =
          r.1.items ++ [(a.hostname r.2, a.opts)] := Assoc.insert_of_not_mem (hn.newName hnn hs) _
      rw [carriesIp, hitems, List.any_append, Bool.or_eq_true]
      rcases List.mem_append.1 hb with hb | hb
      · exact .inl (hold hnn b hb)
      · obtain rfl := List.mem_singleton.1 hb
        exact .inr (by simp [AddArg.opts])

end

/-- The calls with the first arguments keep the promise iff every argument is safe when its turn
comes. -/
theorem addsSafely_iff (hd : IpsDistinct loaded) (args : List (AddArg env)) :
    (∀ pre, pre <+: args → AddsSafely loaded pre (AddArg.adds pre (loaded, id)).1) ↔
      ∀ pre a, pre ++ [a] <+: args →
        NextSafe loaded pre a (AddArg.adds pre (loaded, id)).1
          (AddArg.adds pre (loaded, id)).2 := by
  constructor
  · intro h pre a hpre
    have h₁ := h pre ((List.prefix_append _ _).trans hpre)
    have h₂ := h (pre ++ [a]) hpre
    rw [AddArg.adds_concat] at h₂
    exact h₁.nextSafe hd h₂
  · intro h pre
    induction pre using List.reverseRecOn with
    | nil => exact fun _ => ⟨fun _ hp => hp, fun _ _ ha => absurd ha List.not_mem_nil⟩
    | append_singleton pre a ih =>
      intro hpre
      rw [AddArg.adds_concat]
      exact (ih ((List.prefix_append _ _).trans hpre)).concat hd (h pre a hpre)

/-! ## The calls -/

section
variable {cfg : Value}

/-- The state of `build_hostnames` after some of its arguments. -/
theorem changedLocals_texts (hreal : env.useRealHostname = false)
    (hhosts : cfg.getPath ["all", "hosts"] = .ok (.dict loaded.items)) (hips : HasIps loaded)
    {highest : Nat} (hh : highestHostId env loaded.keys = .ok highest) (args : List (AddArg env)) :
    ∃ s, changedLocals env (args.map AddArg.text) true cfg = .ok s ∧
      (s.allHosts, s.nextHostId) = AddArg.adds args (loaded, highest + 1) := by
  have hs := (initialLocals_eq_ok hhosts).2 ⟨highest, hh, rfl⟩
  rw [changedLocals, hs]
  exact AddArg.loop_text hreal args (s := { allHosts := loaded, nextHostId := highest + 1 }) hips

/-- For a loaded map with distinct ips and a call that succeeds: the calls with the first arguments,
and so the call with all of them, keep the promise iff every argument is safe in the state in which
its turn comes. -/
theorem adds_safely (hreal : env.useRealHostname = false)
    (hhosts : cfg.getPath ["all", "hosts"] = .ok (.dict loaded.items)) (hips : HasIps loaded)
    (hd : IpsDistinct loaded) {args : List (AddArg env)}
    (hcall : buildHostnames env (args.map AddArg.text) true cfg = .ok result) :
    (∀ pre, pre <+: args → ∃ r, buildHostnames env (pre.map AddArg.text) true cfg = .ok r ∧
      AddsSafely loaded pre r) ↔
    ∀ pre a, pre ++ [a] <+: args → ∃ s, changedLocals env (pre.map AddArg.text) true cfg = .ok s ∧
      NextSafe loaded pre a s.allHosts s.nextHostId := by
  obtain ⟨s₀, s', hs₀, -, -⟩ := buildHostnames_eq_ok.1 hcall
  obtain ⟨highest, hh, -⟩ := (initialLocals_eq_ok hhosts).1 hs₀
  have hstate := changedLocals_texts hreal hhosts hips hh
  have hbuild : ∀ pre : List (AddArg env), buildHostnames env (pre.map AddArg.text) true cfg =
      .ok (AddArg.adds pre (loaded, highest + 1)).1 := by
    intro pre
    obtain ⟨s, hs, he⟩ := hstate pre
    rw [buildHostnames, hs, ← he]
    rfl
  have hiff := @addsSafely_iff env loaded (highest + 1) hd args
  refine Iff.trans ?_ (hiff.trans ?_)
  · refine forall_congr' fun pre => imp_congr_right fun _ => ?_
    rw [hbuild]
    simp
  · refine forall_congr' fun pre => forall_congr' fun a => imp_congr_right fun _ => ?_
    obtain ⟨s, hs, he⟩ := hstate pre
    rw [hs, ← he]
    simp

end

end

/-- The loaded map of the examples below, and a configuration that holds it. -/
def loadedHost : OrdDict String Value := ⟨[("node1", hostOpts "10.0.0.1" "10.0.0.1")], by decide⟩

def loadedCfg : Value := .dict [("all", .dict [("hosts", .dict loadedHost.items)])]

theorem loadedHost_ips : HasIps loadedHost ∧ IpsDistinct loadedHost := by
  refine ⟨fun p hp => ?_, List.nodup_singleton _⟩
  obtain rfl : p = ("node1", hostOpts "10.0.0.1" "10.0.0.1") := List.mem_singleton.1 hp
  exact ⟨_, getIpFromOpts_hostOpts⟩

/-- An address, a name with an ip, an ip with an access ip, an address that is there, and all three. -/
def mixedArgs : List (AddArg {}) :=
  [.ofIp {} "10.0.0.2" (by decide) (by decide),
   { name := some "storage", ip := "10.0.0.5", access := none
     name_noComma := by rintro _ ⟨⟩; decide
     ip_noComma := by decide
     access_noComma := by simp
     name_first := by rintro _ ⟨⟩; rfl
     ip_first := by simp },
   { name := none, ip := "10.0.0.3", access := some "192.168.0.3"
     name_noComma := by simp
     ip_noComma := by decide
     access_noComma := by rintro _ ⟨⟩; decide
     name_first := by simp
     ip_first := fun _ => rfl },
   .ofIp {} "10.0.0.5" (by decide) (by decide),
   { name := some "gateway", ip := "10.0.0.6", access := some "192.168.0.6"
     name_noComma := by rintro _ ⟨⟩; decide
     ip_noComma := by decide
     access_noComma := by rintro _ ⟨⟩; decide
     name_first := by rintro _ ⟨⟩; rfl
     ip_first := by simp }]

/-- Arguments of all forms are added to one host. -/
theorem adds_safely_mixed : ∃ result,
    buildHostnames {} ["10.0.0.2", "storage,10.0.0.5", "10.0.0.3,192.168.0.3", "10.0.0.5",
      "gateway,10.0.0.6,192.168.0.6"] true loadedCfg = .ok result ∧
      result.keys = ["node1", "node2", "storage", "node3", "gateway"] ∧
      AddsSafely loadedHost mixedArgs result := by
  have hcall : buildHostnames {} (mixedArgs.map AddArg.text) true loadedCfg =
      .ok ⟨[("node1", hostOpts "10.0.0.1" "10.0.0.1"), ("node2", hostOpts "10.0.0.2" "10.0.0.2"),
        ("storage", hostOpts "10.0.0.5" "10.0.0.5"), ("node3", hostOpts "192.168.0.3" "10.0.0.3"),
        ("gateway", hostOpts "192.168.0.6" "10.0.0.6")], by decide⟩ := rfl
  have hprefixes := (adds_safely rfl rfl loadedHost_ips.1 loadedHost_ips.2 hcall).2 ?_
  · obtain ⟨r, hr, hsafe⟩ := hprefixes mixedArgs (List.prefix_refl _)
    cases hcall.symm.trans hr
    exact ⟨_, hcall, rfl, hsafe⟩
  · rintro (_ | ⟨a, _ | ⟨b, _ | ⟨c, _ | ⟨d, _ | ⟨e, pre⟩⟩⟩⟩⟩) next hpre <;>
      simp only [mixedArgs, List.cons_append, List.nil_append, List.cons_prefix_cons,
        List.nil_prefix, and_true, List.prefix_nil] at hpre
    · subst hpre
      exact ⟨_, rfl, fun _ => by decide, fun _ _ => by decide, fun _ hm => absurd hm (by decide)⟩
    · obtain ⟨rfl, rfl⟩ := hpre
      exact ⟨_, rfl, fun _ => by decide, fun _ _ => by decide, fun _ hm => absurd hm (by decide)⟩
    · obtain ⟨rfl, rfl, rfl⟩ := hpre
      exact ⟨_, rfl, fun _ => by decide, fun _ _ => by decide, fun _ hm => absurd hm (by decide)⟩
    · obtain ⟨rfl, rfl, rfl, rfl⟩ := hpre
      exact ⟨_, rfl, fun h => absurd h (by decide), fun _ h => absurd h (by decide),
        fun _ hm => absurd hm (by decide)⟩
    · obtain ⟨rfl, rfl, rfl, rfl, rfl⟩ := hpre
      exact ⟨_, rfl, fun _ => by decide, fun _ _ => by decide, fun _ hm => absurd hm (by decide)⟩
    · simp at hpre

/-- An argument that gives the name of a loaded host to another ip is not skipped: the loaded host
is overwritten. -/
theorem adds_safely_fails : ¬ ∀ (env : Env) (loaded result : OrdDict String Value) (cfg : Value)
    (args : List (AddArg env)), env.useRealHostname = false →
    cfg.getPath ["all", "hosts"] = .ok (.dict loaded.items) → HasIps loaded → IpsDistinct loaded →
    buildHostnames env (args.map AddArg.text) true cfg = .ok result →
    AddsSafely loaded args result := by
  intro h
  let a : AddArg {} := {
    name := some "node1"
    ip := "10.0.0.9"
    access := none
    name_noComma := by simp
    ip_noComma := by decide
    access_noComma := by simp
    name_first := by
      rintro _ ⟨⟩
      rfl
    ip_first := by simp }
  have hcall : buildHostnames {} ["node1,10.0.0.9"] true loadedCfg =
      .ok ⟨[("node1", hostOpts "10.0.0.9" "10.0.0.9")], by decide⟩ := rfl
  have hkept :=
      (h {} loadedHost _ loadedCfg [a] rfl rfl loadedHost_ips.1 loadedHost_ips.2 hcall).kept
    ("node1", hostOpts "10.0.0.1" "10.0.0.1") (.head _)
  simp [hostOpts] at hkept

/-! ## Plain addresses -/

/-- The highest id among the names that start with `HOST_PREFIX`, or zero. -/
def IsHighestId (env : Env) (names : List String) (highest : Nat) : Prop :=
  (∀ name ∈ names, startsWith name env.hostPrefix = true →
    ∀ id, getHostId env name = .ok id → id ≤ highest) ∧
  (highest = 0 ∨ ∃ name ∈ names, startsWith name env.hostPrefix = true ∧
    getHostId env name = .ok highest)

theorem highestHostId_spec {env : Env} {names : List String} {highest : Nat}
    (h : highestHostId env names = .ok highest) : IsHighestId env names highest := by
  obtain ⟨-, hbound, hone⟩ := foldlM_scanId_eq_ok h
  refine ⟨fun name hn hp id hid => ?_, hone⟩
  obtain ⟨id', hid', hle⟩ := hbound name hn hp
  cases hid.symm.trans hid'
  exact hle

/-- Addresses are added behind the loaded hosts: one host for the first argument with each new ip,
numbered from the highest id on, under names of their own. -/
theorem addresses_added {env : Env} (hreal : env.useRealHostname = false)
    (hletter : env.hostPrefix.toList.head?.any env.chars.isalpha = true)
    (hdot : '.' ∉ env.hostPrefix.toList) {cfg : Value} {loaded : OrdDict String Value}
    (hload : cfg.getPath ["all", "hosts"] = .ok (.dict loaded.items)) (hips : HasIps loaded)
    (hids : ∀ name ∈ loaded.keys, startsWith name env.hostPrefix = true →
      ∃ id, getHostId env name = .ok id)
    (args : List (AddArg env)) (hname : ∀ a ∈ args, a.name = none)
    (htext : ∀ a ∈ args, a.text ∉ loaded.keys) :
    ∃ result highest, buildHostnames env (args.map AddArg.text) true cfg = .ok result ∧
      IsHighestId env loaded.keys highest ∧
      result.items = loaded.items ++
        AddArg.generatedHosts (highest + 1) (AddArg.newArgs loaded args) ∧
      result.keys.Nodup ∧
      ∀ name ∈ Assoc.keys (AddArg.generatedHosts (highest + 1) (AddArg.newArgs loaded args)),
        name ∉ loaded.keys := by
  obtain ⟨highest, hhighest⟩ := highestHostId_isOk.2 hids
  obtain ⟨s', hloop, hs'⟩ := AddArg.loop_text hreal args
    (s := { allHosts := loaded, nextHostId := highest + 1 }) hips
  have hfresh : ∀ i, highest + 1 ≤ i → generatedName env i ∉ loaded.keys :=
    fun i hi => generatedName_not_mem hdot hhighest hi
  have hitems := (AddArg.adds_newArgs args loaded (highest + 1) hname
    (fun a ha => ⟨htext a ha, AddArg.text_ne_generatedName (hname a ha) hletter⟩) hfresh).1
  rw [← hs'] at hitems
  refine ⟨s'.allHosts, highest, ?_, highestHostId_spec hhighest, hitems, s'.allHosts.nodup, ?_⟩
  · exact buildHostnames_eq_ok.2 ⟨_, s', (initialLocals_eq_ok hload).2 ⟨highest, hhighest, rfl⟩,
      hloop, rfl⟩
  · intro name hn
    rw [AddArg.keys_generatedHosts] at hn
    obtain ⟨i, hi, rfl⟩ := List.mem_map.1 hn
    exact hfresh i (List.mem_range'_1.1 hi).1

/-- Two spellings of an argument with a new ip, and one with the ip of the loaded host. -/
theorem addresses_added_two : ∃ result highest,
    buildHostnames {} ["10.0.0.2,172.16.0.2", "10.0.0.1", "10.0.0.2"] true loadedCfg = .ok result ∧
      IsHighestId {} loadedHost.keys highest ∧
      result.items = loadedHost.items ++
        [(generatedName {} (highest + 1), hostOpts "172.16.0.2" "10.0.0.2")] := by
  let a : AddArg {} := {
    name := none
    ip := "10.0.0.2"
    access := some "172.16.0.2"
    name_noComma := by simp
    ip_noComma := by decide
    access_noComma := by
      rintro _ ⟨⟩
      decide
    name_first := by simp
    ip_first := fun _ => rfl }
  let args : List (AddArg {}) := [a, .ofIp {} "10.0.0.1" (by decide) (by decide),
    .ofIp {} "10.0.0.2" (by decide) (by decide)]
  obtain ⟨result, highest, hcall, hhighest, hitems, -⟩ := @addresses_added {} rfl rfl (by decide)
    loadedCfg loadedHost rfl loadedHost_ips.1
    (fun name hn _ => ⟨1, by cases List.mem_singleton.1 hn; rfl⟩) args (by decide) (by decide)
  exact ⟨result, highest, hcall, hhighest, hitems⟩

end Kubespray
