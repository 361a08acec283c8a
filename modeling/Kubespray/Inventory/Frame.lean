import Kubespray.Inventory.Runs

/-!
# The passes on any file

What the passes do to `all.hosts` of a configuration that need not come from the builder:
`ensure_required_groups` leaves it alone (`ensureRequiredGroups_hosts`), and the passes of a run
store the host list in it (`mem_hostsOf_of_setGroups`). Every pass but `set_all` changes only what
is below `all.children` or takes hosts away before `set_all` stores the list.
-/

namespace Kubespray

open Py

section
variable {env : Env} {v w : Value} {group host : String} {opts : Value}
  {hosts : OrdDict String Value}

/-- A change below `all.children` leaves the hosts alone. -/
theorem getPath_hosts_of_update {ls : List String} {f : Value → Except Exc Value}
    (h : v.update ("all" :: "children" :: ls) f = .ok w) :
    w.getPath ["all", "hosts"] = v.getPath ["all", "hosts"] :=
  @Value.getPath_update_of_ne "children" "hosts" (by decide) ["all"] ls [] f v w h

theorem hostsOf_congr (h : w.getPath ["all", "hosts"] = v.getPath ["all", "hosts"]) :
    hostsOf w = hostsOf v := by
  rw [hostsOf, hostsOf, h]

/-- `ensure_required_groups` leaves the hosts of a configuration alone. -/
theorem ensureRequiredGroups_hosts {groups : List String} {d : Value}
    (hv : v.getPath ["all", "hosts"] = .ok d) (h : ensureRequiredGroups groups v = .ok w) :
    w.getPath ["all", "hosts"] = .ok d := by
  refine foldlM_invariant (P := fun v => v.getPath ["all", "hosts"] = .ok d) ?_ hv h
  intro v w group _ hv h
  unfold ensureRequiredGroup at h
  split at h
  · -- the group `all` is there
    have hall : v.contains "all" = .ok true := by
      rw [Value.getPath_cons, bind_eq_ok] at hv
      obtain ⟨c, hc, -⟩ := hv
      cases v with
      | dict kvs =>
        rw [Value.getItem_dict] at hc
        split at hc
        · next x hl =>
          have hk := Assoc.lookup_isSome.1 (by rw [hl]; rfl)
          rw [Value.contains, decide_eq_true hk]
        · cases hc
      | _ => cases hc
    rw [hall] at h
    cases h
    exact hv
  · rw [bind_eq_ok] at h
    obtain ⟨children, -, h⟩ := h
    rw [bind_eq_ok] at h
    obtain ⟨b, -, h⟩ := h
    cases b with
    | true =>
      cases h
      exact hv
    | false =>
      rw [← hv]
      exact getPath_hosts_of_update h

/-- If `m` returns a configuration, it has the hosts of `v`. -/
def KeepsHosts (v : Value) (m : Except Exc Value) : Prop := ∀ w, m = .ok w → hostsOf w = hostsOf v

theorem KeepsHosts.pure : KeepsHosts v (pure v) := by
  intro w h
  cases h
  rfl

theorem KeepsHosts.bind {α : Type} {x : Except Exc α} {f : α → Except Exc Value}
    (h : ∀ a, KeepsHosts v (f a)) : KeepsHosts v (x >>= f) := by
  intro w hw
  obtain ⟨a, -, hw⟩ := bind_eq_ok.1 hw
  exact h a w hw

theorem KeepsHosts.ite {c : Prop} [Decidable c] {m m' : Except Exc Value} (h : KeepsHosts v m)
    (h' : KeepsHosts v m') : KeepsHosts v (if c then m else m') := by
  split
  · exact h
  · exact h'

theorem KeepsHosts.update {ls : List String} {f : Value → Except Exc Value} :
    KeepsHosts v (v.update ("all" :: "children" :: ls) f) :=
  fun _ h => hostsOf_congr (getPath_hosts_of_update h)

/-- A loop keeps the hosts if each iteration does. -/
theorem KeepsHosts.foldlM {α : Type} {f : Value → α → Except Exc Value} {l : List α}
    (h : ∀ v a, KeepsHosts v (f v a)) : KeepsHosts v (l.foldlM f v) :=
  fun _ hw => foldlM_invariant (P := fun w => hostsOf w = hostsOf v)
    (fun v' w' a _ hv hs => (h v' a w' hs).trans hv) rfl hw

/-- `add_host_to_group` on a group leaves the hosts alone. -/
theorem addHostToGroup_keeps (hg : group ≠ "all") :
    KeepsHosts v (addHostToGroup group host opts v) := by
  rw [addHostToGroup, if_neg hg]
  exact .ite (.bind fun _ => .ite .update .update) .pure

/-- `set_etcd` and `set_kube_control_plane` leave the hosts alone. -/
theorem addHosts_keeps {hs : List String} (hg : group ≠ "all") :
    KeepsHosts v (addHosts group hs v) :=
  .foldlM fun _ _ => addHostToGroup_keeps hg

/-- `set_kube_node` leaves the hosts alone. -/
theorem setKubeNode_keeps {hs : List String} : KeepsHosts v (setKubeNode env hs v) := by
  refine .foldlM fun v host => ?_
  have hadd : KeepsHosts v (addHostToGroup "kube_node" host noOpts v) :=
    addHostToGroup_keeps (by decide)
  have hcp : ∀ inControlPlane : Bool, KeepsHosts v
      (if inControlPlane then Pure.pure v else addHostToGroup "kube_node" host noOpts v) :=
    fun _ => .ite .pure hadd
  refine .bind fun _ => .bind fun size => ?_
  exact .ite (.bind fun _ => .bind fun _ =>
    .ite .pure (.ite (.bind fun _ => .bind hcp) (.bind hcp)))
    (.bind fun _ => .ite .pure (.ite (.bind fun _ => .bind hcp) (.bind hcp)))

/-- `set_calico_rr` leaves the hosts alone. -/
theorem setCalicoRr_keeps {hs : List String} : KeepsHosts v (setCalicoRr hs v) := by
  refine .foldlM fun v host => ?_
  exact .bind fun _ => .bind fun _ => .ite .pure
    (.bind fun _ => .bind fun _ => .ite .pure (addHostToGroup_keeps (by decide)))

/-- `add_host_to_group` on `all` stores the options of the host and leaves the other hosts alone. -/
theorem addHostToGroup_all (h : addHostToGroup "all" host opts v = .ok w) :
    Assoc.lookup host (hostsOf w) = some opts ∧
      ∀ k ≠ host, Assoc.lookup k (hostsOf w) = Assoc.lookup k (hostsOf v) := by
  -- `v₁` is the configuration in which the entry is assigned
  obtain ⟨v₁, hother, h⟩ : ∃ v₁ : Value, (∀ kvs, v₁.getPath ["all", "hosts"] = .ok (.dict kvs) →
      ∀ k ≠ host, Assoc.lookup k kvs = Assoc.lookup k (hostsOf v)) ∧
        v₁.update ["all", "hosts"] (·.setItem host opts) = .ok w := by
    rw [addHostToGroup, if_pos rfl, bind_eq_ok] at h
    obtain ⟨hs, hget, h⟩ := h
    split at h
    · next hnone =>
      -- `hosts` was `None`: the new mapping has the added host only
      rw [bind_eq_ok] at h
      obtain ⟨v₁, hv₁, h⟩ := h
      refine ⟨v₁, fun kvs hkvs k hk => ?_, h⟩
      obtain ⟨all, all', -, hset, hall'⟩ := Value.getPath_update_self hv₁
      have hitem := Value.getItem_setItem_self hset
      have hpath : v₁.getPath ["all", "hosts"] = .ok (.dict [(host, .none)]) := by
        have hall₁ : v₁.getItem "all" = .ok all' := by
          rw [Value.getPath_cons, bind_eq_ok] at hall'
          obtain ⟨c, hc, he⟩ := hall'
          cases he
          exact hc
        rw [Value.getPath_cons, hall₁, ok_bind, Value.getPath_cons, hitem]
        rfl
      rw [hpath] at hkvs
      cases hkvs
      have hnil : hostsOf v = [] := by
        rw [hostsOf, hget]
        cases hs <;> first | rfl | cases hnone
      rw [hnil, Assoc.lookup_cons, if_neg hk.symm]
    · rw [pure_eq_ok, ok_bind] at h
      refine ⟨v, fun kvs hkvs k _ => ?_, h⟩
      rw [hostsOf, hkvs]
  obtain ⟨c, c', hc, hset, hw⟩ := Value.getPath_update_self h
  obtain ⟨kvs, rfl, rfl⟩ := Value.setItem_eq_ok hset
  have hhosts : hostsOf w = Assoc.insert host opts kvs := by rw [hostsOf, hw]
  rw [hhosts]
  refine ⟨Assoc.lookup_insert_self _ _ _, fun k hk => ?_⟩
  rw [Assoc.lookup_insert_of_ne hk.symm, hother kvs hc k hk]

/-- `set_all` stores the host list. -/
theorem setAll_lookup (h : setAll hosts v = .ok w) :
    ∀ p ∈ hosts.items, Assoc.lookup p.1 (hostsOf w) = some p.2 := by
  have key : ∀ (ps : List (String × Value)) (v : Value), (Assoc.keys ps).Nodup →
      ps.foldlM (fun v p => addHostToGroup "all" p.1 p.2 v) v = .ok w →
      (∀ p ∈ ps, Assoc.lookup p.1 (hostsOf w) = some p.2) ∧
        ∀ k ∉ Assoc.keys ps, Assoc.lookup k (hostsOf w) = Assoc.lookup k (hostsOf v) := by
    intro ps
    induction ps with
    | nil =>
      intro v _ h
      cases h
      exact ⟨fun _ hp => absurd hp List.not_mem_nil, fun _ _ => rfl⟩
    | cons q ps ih =>
      intro v hnd h
      rw [List.foldlM_cons, bind_eq_ok] at h
      obtain ⟨v₁, h₁, h⟩ := h
      rw [Assoc.keys_cons, List.nodup_cons] at hnd
      obtain ⟨hstored, hrest⟩ := ih v₁ hnd.2 h
      obtain ⟨hself, hother⟩ := addHostToGroup_all h₁
      refine ⟨fun p hp => ?_, fun k hk => ?_⟩
      · rcases List.mem_cons.1 hp with rfl | hp
        · rw [hrest _ hnd.1, hself]
        · exact hstored p hp
      · rw [Assoc.keys_cons, List.mem_cons, not_or] at hk
        rw [hrest k hk.2, hother k hk.1]
  exact (key hosts.items v hosts.nodup h).1

/-- The passes of a run store the host list in any configuration. -/
theorem mem_hostsOf_of_setGroups (h : setGroups env hosts v = .ok w) :
    ∀ p ∈ hosts.items, p ∈ hostsOf w := by
  simp only [setGroups, bind_eq_ok] at h
  obtain ⟨v₁, -, v₂, hall, v₃, hk8s, v₄, hetcd, v₅, hcp, v₆, hnode, h⟩ := h
  have hw : hostsOf w = hostsOf v₆ := by
    split at h
    · exact setCalicoRr_keeps w h
    · cases h
      rfl
  have hsame : hostsOf w = hostsOf v₂ :=
    calc hostsOf w = hostsOf v₆ := hw
      _ = hostsOf v₅ := setKubeNode_keeps v₆ hnode
      _ = hostsOf v₄ := addHosts_keeps (by decide) v₅ hcp
      _ = hostsOf v₃ := addHosts_keeps (by decide) v₄ hetcd
      _ = hostsOf v₂ := KeepsHosts.update v₃ hk8s
  intro p hp
  rw [hsame]
  exact Assoc.mem_of_lookup (setAll_lookup hall p hp)

end

end Kubespray
