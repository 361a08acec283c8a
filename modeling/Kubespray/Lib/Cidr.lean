import Mathlib.Order.Interval.Finset.Nat

/-!
# Networks

Ranges of addresses of `w` bits with a common prefix. Two networks are disjoint or one lies in the
other (`Cidr.disjoint_or_subset`), and a network is divided into disjoint subnets of any longer
prefix (`Cidr.subnet`). -/

/-- A network of addresses of `w` bits. -/
structure Cidr (w : ℕ) where
  /-- The first address. -/
  network : ℕ
  /-- The length of the prefix. -/
  prefixlen : ℕ
  prefixlen_le : prefixlen ≤ w
  network_lt : network < 2 ^ w
  /-- The bits after the prefix are zero. -/
  aligned : 2 ^ (w - prefixlen) ∣ network

namespace Cidr

variable {w : ℕ} {n m : Cidr w} {a : ℕ}

/-- The number of addresses. -/
def size (n : Cidr w) : ℕ := 2 ^ (w - n.prefixlen)

/-- The last address. -/
def broadcast (n : Cidr w) : ℕ := n.network + n.size - 1

/-- The addresses of the network. -/
instance : Membership ℕ (Cidr w) := ⟨fun n a => n.network ≤ a ∧ a < n.network + n.size⟩

instance : HasSubset (Cidr w) := ⟨fun n m => ∀ a ∈ n, a ∈ m⟩

/-- The networks have no common address. -/
def Disjoint (n m : Cidr w) : Prop := ∀ a ∈ n, a ∉ m

/-- The addresses other than the network and the broadcast address. -/
def hosts (n : Cidr w) : Finset ℕ := Finset.Ioo n.network n.broadcast

theorem mem_def : a ∈ n ↔ n.network ≤ a ∧ a < n.network + n.size := Iff.rfl

theorem size_pos (n : Cidr w) : 0 < n.size := Nat.two_pow_pos _

theorem network_mem (n : Cidr w) : n.network ∈ n := ⟨le_rfl, Nat.lt_add_of_pos_right n.size_pos⟩

theorem broadcast_mem (n : Cidr w) : n.broadcast ∈ n := by
  have hpos := n.size_pos
  rw [mem_def, broadcast]
  omega

theorem card_hosts (n : Cidr w) : n.hosts.card = n.size - 2 := by
  rw [hosts, Nat.card_Ioo, broadcast]
  omega

/-- The addresses of a network have one prefix. -/
theorem mem_iff_div : a ∈ n ↔ a / n.size = n.network / n.size := by
  obtain ⟨q, hq⟩ := n.aligned
  have hnetwork : n.network = n.size * q := hq
  rw [mem_def, hnetwork, Nat.mul_div_cancel_left _ n.size_pos, Nat.div_eq_iff n.size_pos]
  rw [Nat.mul_comm]
  have hpos := n.size_pos
  omega

/-- The networks with the longer prefix are smaller. -/
theorem size_eq_mul (hle : n.prefixlen ≤ m.prefixlen) :
    n.size = m.size * 2 ^ (m.prefixlen - n.prefixlen) := by
  have hm := m.prefixlen_le
  rw [size, size, ← pow_add]
  congr 1
  omega

/-- A network with a longer prefix that has an address in another one lies in it. -/
theorem subset_of_mem (hle : n.prefixlen ≤ m.prefixlen) (hn : a ∈ n) (hm : a ∈ m) : m ⊆ n := by
  intro b hb
  rw [mem_iff_div] at *
  rw [← hn, size_eq_mul hle, ← Nat.div_div_eq_div_mul, ← Nat.div_div_eq_div_mul, hb, hm]

theorem subset_iff : m ⊆ n ↔ n.prefixlen ≤ m.prefixlen ∧ m.network ∈ n := by
  constructor
  · intro hsub
    have hfirst : m.network ∈ n := hsub _ m.network_mem
    have hlast : m.broadcast ∈ n := hsub _ m.broadcast_mem
    refine ⟨?_, hfirst⟩
    have hpos := m.size_pos
    have hsize : m.size ≤ n.size := by
      rw [mem_def] at hfirst hlast
      rw [broadcast] at hlast
      omega
    have hexp : w - m.prefixlen ≤ w - n.prefixlen :=
        (Nat.pow_le_pow_iff_right Nat.one_lt_two).1 hsize
    have hn := n.prefixlen_le
    omega
  · rintro ⟨hle, hmem⟩
    exact subset_of_mem hle hmem m.network_mem

instance : Decidable (a ∈ n) := inferInstanceAs (Decidable (_ ∧ _))

instance : Decidable (m ⊆ n) := decidable_of_iff _ subset_iff.symm

/-- Two networks are disjoint, or one lies in the other. -/
theorem disjoint_or_subset (n m : Cidr w) : n.Disjoint m ∨ n ⊆ m ∨ m ⊆ n := by
  by_cases hdisjoint : n.Disjoint m
  · exact .inl hdisjoint
  · right
    obtain ⟨a, hn, hm⟩ : ∃ a, a ∈ n ∧ a ∈ m := by
      simpa only [Disjoint, not_forall, not_not, exists_prop] using hdisjoint
    rcases le_total n.prefixlen m.prefixlen with hle | hle
    · exact .inr (subset_of_mem hle hn hm)
    · exact .inl (subset_of_mem hle hm hn)

theorem disjoint_iff : n.Disjoint m ↔ ¬ n ⊆ m ∧ ¬ m ⊆ n := by
  constructor
  · intro hdisjoint
    exact ⟨fun hsub => hdisjoint _ n.network_mem (hsub _ n.network_mem),
      fun hsub => hdisjoint _ (hsub _ m.network_mem) m.network_mem⟩
  · rintro ⟨hn, hm⟩
    rcases disjoint_or_subset n m with h | h | h
    · exact h
    · exact absurd h hn
    · exact absurd h hm

/-! ## Subnets -/

/-- A network ends with the address space at the latest. -/
theorem network_add_size_le (n : Cidr w) : n.network + n.size ≤ 2 ^ w := by
  obtain ⟨q, hq⟩ := n.aligned
  have hnetwork : n.network = n.size * q := hq
  have hspace : 2 ^ w = n.size * 2 ^ n.prefixlen := by
    rw [size, ← pow_add, Nat.sub_add_cancel n.prefixlen_le]
  have hlt := n.network_lt
  rw [hnetwork, hspace] at hlt ⊢
  have hq : q < 2 ^ n.prefixlen := Nat.lt_of_mul_lt_mul_left hlt
  calc n.size * q + n.size = n.size * (q + 1) := by rw [Nat.mul_succ]
    _ ≤ n.size * 2 ^ n.prefixlen := Nat.mul_le_mul_left _ hq

variable {len : ℕ}

/-- The subnets fill the network. -/
theorem size_eq_subnets (hn : n.prefixlen ≤ len) (hw : len ≤ w) :
    n.size = 2 ^ (w - len) * 2 ^ (len - n.prefixlen) := by
  rw [size, ← pow_add]
  congr 1
  omega

theorem subnet_end_le (hn : n.prefixlen ≤ len) (hw : len ≤ w) (i : Fin (2 ^ (len - n.prefixlen))) :
    2 ^ (w - len) * i + 2 ^ (w - len) ≤ n.size := by
  rw [size_eq_subnets hn hw, ← Nat.mul_succ]
  exact Nat.mul_le_mul_left _ i.isLt

/-- The subnet with the number `i` among those with the prefix length `len`. -/
def subnet (n : Cidr w) (hn : n.prefixlen ≤ len) (hw : len ≤ w)
    (i : Fin (2 ^ (len - n.prefixlen))) :
    Cidr w where
  network := n.network + 2 ^ (w - len) * i
  prefixlen := len
  prefixlen_le := hw
  network_lt := by
    have hpos := Nat.two_pow_pos (w - len)
    have hsub := subnet_end_le hn hw i
    have hend := n.network_add_size_le
    omega
  aligned := by
    have hdvd : 2 ^ (w - len) ∣ 2 ^ (w - n.prefixlen) := Nat.pow_dvd_pow 2 (by omega)
    exact Nat.dvd_add (Nat.dvd_trans hdvd n.aligned) (Nat.dvd_mul_right _ _)

variable {hn : n.prefixlen ≤ len} {hw : len ≤ w}

theorem subnet_subset (i : Fin (2 ^ (len - n.prefixlen))) : n.subnet hn hw i ⊆ n := by
  intro a ha
  have hend := subnet_end_le hn hw i
  obtain ⟨hfirst, hlast⟩ := mem_def.1 ha
  refine ⟨(Nat.le_add_right _ _).trans hfirst, ?_⟩
  calc a < n.network + 2 ^ (w - len) * i.val + 2 ^ (w - len) := hlast
    _ ≤ n.network + n.size := by
      rw [Nat.add_assoc]
      exact Nat.add_le_add_left hend _

/-- Of two subnets the one with the smaller number ends before the other. -/
theorem subnet_lt {i j : Fin (2 ^ (len - n.prefixlen))} (hij : i < j) {b : ℕ}
    (ha : a ∈ n.subnet hn hw i) (hb : b ∈ n.subnet hn hw j) : a < b := by
  have hmul : 2 ^ (w - len) * i.val + 2 ^ (w - len) ≤ 2 ^ (w - len) * j.val := by
    rw [← Nat.mul_succ]
    exact Nat.mul_le_mul_left _ hij
  calc a < n.network + 2 ^ (w - len) * i.val + 2 ^ (w - len) := (mem_def.1 ha).2
    _ ≤ n.network + 2 ^ (w - len) * j.val := by
      rw [Nat.add_assoc]
      exact Nat.add_le_add_left hmul _
    _ ≤ b := (mem_def.1 hb).1

theorem subnet_disjoint {i j : Fin (2 ^ (len - n.prefixlen))} (hij : i ≠ j) :
    (n.subnet hn hw i).Disjoint (n.subnet hn hw j) := by
  intro a hi hj
  rcases lt_or_gt_of_ne hij with hlt | hlt
  · exact (subnet_lt hlt hi hj).false
  · exact (subnet_lt hlt hj hi).false

end Cidr
