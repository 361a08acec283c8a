import Kubespray.Lib.PyStr

/-!
# The `ipaddress` module

`ipaddress.ip_address` of a text and of an integer, the integer of an address and its `exploded`
text, following the library: a dotted quad without leading zeros is an IPv4 address, anything else
is read as eight 16-bit groups in hexadecimal with at most one `::`, an optional dotted quad in
the last place and an optional scope after `%`.
-/

namespace Py

/-- An `IPv4Address` or `IPv6Address`, by its integer value. -/
inductive IpAddress where
  | v4 (n : Nat)
  | v6 (n : Nat)
  deriving DecidableEq, Repr

namespace IpAddress

/-- `int(address)`. -/
def toNat : IpAddress → Nat
  | .v4 n => n
  | .v6 n => n

/-- `_parse_octet`. -/
def parseOctet (s : String) : Option Nat :=
  let ds := s.toList
  if ds ≠ [] ∧ ds.all Char.isDigit ∧ ds.length ≤ 3 ∧ (ds = ['0'] ∨ ds.head? ≠ some '0') ∧
      Nat.ofDigitChars 10 ds 0 ≤ 255 then
    some (Nat.ofDigitChars 10 ds 0)
  else none

/-- `IPv4Address._ip_int_from_string`. -/
def parse4 (s : String) : Option Nat :=
  match (split '.' s).mapM parseOctet with
  | some [a, b, c, d] => some (((a * 256 + b) * 256 + c) * 256 + d)
  | _ => none

/-- The value of a hexadecimal digit. -/
def hexDigit (c : Char) : Option Nat :=
  if c.isDigit then some (c.toNat - '0'.toNat)
  else if 'a' ≤ c ∧ c ≤ 'f' then some (c.toNat - 'a'.toNat + 10)
  else if 'A' ≤ c ∧ c ≤ 'F' then some (c.toNat - 'A'.toNat + 10)
  else none

/-- `_parse_hextet`. -/
def parseHextet (s : String) : Option Nat :=
  if s.toList ≠ [] ∧ s.toList.length ≤ 4 then
    s.toList.foldlM (fun n c => (hexDigit c).map (16 * n + ·)) 0
  else none

/-- The groups of an IPv6 text, with an IPv4 address in the last place as two groups. -/
def groups6 (s : String) : Option (List (Option Nat)) :=
  let parts := split ':' s
  if parts.length < 3 then none else do
    let lasts ←
      match parts.getLast? with
      | some last =>
        if '.' ∈ last.toList then (parse4 last).map fun n => [some (n / 65536), some (n % 65536)]
        else if last = "" then some [none]
        else (parseHextet last).map fun n => [some n]
      | none => none
    let inits ← parts.dropLast.mapM fun p => if p = "" then some none else (parseHextet p).map some
    let gs := inits ++ lasts
    if gs.length ≤ 9 then some gs else none

/-- The integer of a list of 16-bit groups. -/
def ofGroups (gs : List Nat) : Nat := gs.foldl (fun n g => 65536 * n + g) 0

/-- `IPv6Address._ip_int_from_string`. An empty group stands for `::`; it is empty in a second
place only when `::` is at the start or the end of the text. -/
def parse6 (s : String) : Option Nat := do
  let gs ← groups6 s
  let inner := gs.tail.dropLast
  match inner.count none with
  | 0 => do
    let ns ← gs.mapM id
    if ns.length = 8 then some (ofGroups ns) else none
  | 1 => do
    let hi := gs.take (1 + inner.idxOf none)
    let lo := gs.drop (2 + inner.idxOf none)
    let hi ← if hi.head? = some none then (if hi.length = 1 then some [] else none) else hi.mapM id
    let lo ← if lo.getLast? = some none then (if lo.length = 1 then some [] else none)
      else lo.mapM id
    if hi.length + lo.length < 8 then
      some (ofGroups (hi ++ List.replicate (8 - (hi.length + lo.length)) 0 ++ lo))
    else none
  | _ => none

/-- The text without its scope `%scope`; a scope is not empty and has no `%`. -/
def splitScope (s : String) : Option String :=
  match split '%' s with
  | [a] => some a
  | [a, scope] => if scope = "" then none else some a
  | _ => none

/-- `ip_address(text)`; `none` is its `ValueError`. -/
def ofString (s : String) : Option IpAddress :=
  if '/' ∈ s.toList then none
  else (parse4 s).map .v4 <|> ((splitScope s).bind parse6).map .v6

/-- `ip_address(n)` of an integer; `none` is its `ValueError`. -/
def ofNat (n : Nat) : Option IpAddress :=
  if n < 2 ^ 32 then some (.v4 n) else if n < 2 ^ 128 then some (.v6 n) else none

/-- A 16-bit group as four hexadecimal digits. -/
def showGroup (n : Nat) : String := String.ofList ((Nat.toDigits 16 n).leftpad 4 '0')

/-- `address.exploded`. -/
def exploded : IpAddress → String
  | .v4 n => ".".intercalate ([24, 16, 8, 0].map fun i => toString (n / 2 ^ i % 256))
  | .v6 n =>
    ":".intercalate ([112, 96, 80, 64, 48, 32, 16, 0].map fun i => showGroup (n / 2 ^ i % 65536))

example : ofString "10.90.0.4" = some (.v4 173670404) := by decide
example : (ofString "fd00::1:2").map exploded =
    some "fd00:0000:0000:0000:0000:0000:0001:0002" := by decide +kernel

/-! ## How an IPv4 address is written -/

/-- An octet is written with one or more ASCII digits. -/
theorem parseOctet_text {s : String} {n : Nat} (h : parseOctet s = some n) :
    s.toList ≠ [] ∧ ∀ c ∈ s.toList, c.isDigit = true := by
  simp only [parseOctet] at h
  split at h
  · next hc => exact ⟨hc.1, List.all_eq_true.1 hc.2.1⟩
  · cases h

/-- When all elements of a list are read, each of them is. -/
theorem exists_of_mapM_eq_some {α β : Type} {f : α → Option β} {l : List α} {r : List β}
    (h : l.mapM f = some r) {a : α} (ha : a ∈ l) : ∃ b, f a = some b := by
  induction l generalizing r with
  | nil => cases ha
  | cons x l ih =>
    simp only [List.mapM_cons, Option.bind_eq_bind, Option.bind_eq_some_iff] at h
    obtain ⟨b, hb, r', hr', -⟩ := h
    rcases List.mem_cons.1 ha with rfl | ha
    · exact ⟨b, hb⟩
    · exact ih hr' ha

/-- What is read from a list is read from one of its elements. -/
theorem exists_mem_of_mapM_eq_some {α β : Type} {f : α → Option β} {l : List α} {r : List β}
    (h : l.mapM f = some r) {b : β} (hb : b ∈ r) : ∃ a ∈ l, f a = some b := by
  induction l generalizing r with
  | nil =>
    cases h
    cases hb
  | cons a l ih =>
    simp only [List.mapM_cons, Option.bind_eq_bind, Option.bind_eq_some_iff] at h
    obtain ⟨b₁, h₁, r', hr, h⟩ := h
    cases h
    rcases List.mem_cons.1 hb with rfl | hb
    · exact ⟨a, .head _, h₁⟩
    · obtain ⟨a', ha', he⟩ := ih hr hb
      exact ⟨a', .tail _ ha', he⟩

/-- A list is read when each of its elements is. -/
theorem mapM_eq_some_map {α β : Type} {f : α → Option β} {g : α → β} {l : List α}
    (h : ∀ a ∈ l, f a = some (g a)) : l.mapM f = some (l.map g) := by
  induction l with
  | nil => rfl
  | cons a l ih =>
    rw [List.mapM_cons, h a (.head _), ih fun b hb => h b (.tail _ hb)]
    rfl

/-- An IPv4 address is written with ASCII digits and dots and starts with a digit. -/
theorem parse4_text {s : String} {n : Nat} (h : parse4 s = some n) :
    (∀ c ∈ s.toList, c.isDigit = true ∨ c = '.') ∧
      ∃ c cs, s.toList = c :: cs ∧ c.isDigit = true := by
  have hs : ['.'].intercalate (s.toList.splitOn '.') = s.toList := List.intercalate_splitOn _
  have hoct : ∀ l ∈ s.toList.splitOn '.', l ≠ [] ∧ ∀ c ∈ l, c.isDigit = true := by
    intro l hl
    have hr : ∃ r, (split '.' s).mapM parseOctet = some r := by
      rw [parse4] at h
      cases hm : (split '.' s).mapM parseOctet with
      | none => rw [hm] at h; cases h
      | some r => exact ⟨r, rfl⟩
    obtain ⟨r, hr⟩ := hr
    obtain ⟨m, hm⟩ := exists_of_mapM_eq_some hr (List.mem_map_of_mem hl)
    simpa using parseOctet_text hm
  cases hp : s.toList.splitOn '.' with
  | nil => exact absurd hp (List.splitOn_ne_nil _ _)
  | cons l ls =>
    rw [hp] at hs hoct
    refine ⟨fun c hc => ?_, ?_⟩
    · rw [← hs] at hc
      rcases mem_intercalate hc with rfl | ⟨m, hm, hcm⟩
      · exact .inr rfl
      · exact .inl ((hoct m hm).2 c hcm)
    · obtain ⟨hne, hd⟩ := hoct l (.head _)
      obtain ⟨c, cs, rfl⟩ := List.exists_cons_of_ne_nil hne
      cases ls with
      | nil => exact ⟨c, cs, by rw [← hs]; simp, hd c (.head _)⟩
      | cons m ms =>
        exact ⟨c, cs ++ ('.' :: ['.'].intercalate (m :: ms)),
          by rw [← hs, List.intercalate_cons_cons]; simp, hd c (.head _)⟩

/-! ## How an address is printed -/

/-- Printed numbers consist of digits. -/
theorem exists_digitChar_of_mem_toDigits {b : Nat} (hb : 1 < b) {n : Nat} {c : Char}
    (h : c ∈ Nat.toDigits b n) : ∃ d, d < b ∧ c = Nat.digitChar d := by
  induction n using Nat.strongRecOn with
  | ind n ih =>
    rw [Nat.toDigits_eq_if hb] at h
    split at h
    · next hn => exact ⟨n, hn, List.mem_singleton.1 h⟩
    · next hn =>
      rcases List.mem_append.1 h with h | h
      · exact ih (n / b) (Nat.div_lt_self (by omega) hb) h
      · exact ⟨n % b, Nat.mod_lt _ (by omega), List.mem_singleton.1 h⟩

/-- A printed group consists of hexadecimal digits. -/
theorem digitChar_of_mem_showGroup {n : Nat} {c : Char} (h : c ∈ (showGroup n).toList) :
    ∃ d, d < 16 ∧ c = Nat.digitChar d := by
  rw [showGroup, String.toList_ofList, List.leftpad, List.mem_append] at h
  rcases h with h | h
  · exact ⟨0, by decide, (List.mem_replicate.1 h).2⟩
  · exact exists_digitChar_of_mem_toDigits (by decide) h

/-- A printed address consists of hexadecimal digits, dots and colons. -/
theorem exploded_text {a : IpAddress} {c : Char} (h : c ∈ a.exploded.toList) :
    c = '.' ∨ c = ':' ∨ ∃ d, d < 16 ∧ c = Nat.digitChar d := by
  cases a with
  | v4 n =>
    rw [exploded, String.toList_intercalate] at h
    rcases mem_intercalate h with rfl | ⟨l, hl, hc⟩
    · exact .inl rfl
    · obtain ⟨s, hs, rfl⟩ := List.mem_map.1 hl
      obtain ⟨i, -, rfl⟩ := List.mem_map.1 hs
      rw [Nat.toString_eq_repr, Nat.toList_repr] at hc
      obtain ⟨d, hd, rfl⟩ := exists_digitChar_of_mem_toDigits (by decide) hc
      exact .inr (.inr ⟨d, by omega, rfl⟩)
  | v6 n =>
    rw [exploded, String.toList_intercalate] at h
    rcases mem_intercalate h with rfl | ⟨l, hl, hc⟩
    · exact .inr (.inl rfl)
    · obtain ⟨s, hs, rfl⟩ := List.mem_map.1 hl
      obtain ⟨i, -, rfl⟩ := List.mem_map.1 hs
      exact .inr (.inr (digitChar_of_mem_showGroup hc))

/-- So it has no comma and no dash. -/
theorem not_mem_exploded (a : IpAddress) : ',' ∉ a.exploded.toList ∧ '-' ∉ a.exploded.toList := by
  have hdigit : ∀ d < 16, Nat.digitChar d ≠ ',' ∧ Nat.digitChar d ≠ '-' := by decide
  constructor
  · intro h
    rcases exploded_text h with he | he | ⟨d, hd, he⟩
    · exact absurd he (by decide)
    · exact absurd he (by decide)
    · exact (hdigit d hd).1 he.symm
  · intro h
    rcases exploded_text h with he | he | ⟨d, hd, he⟩
    · exact absurd he (by decide)
    · exact absurd he (by decide)
    · exact (hdigit d hd).2 he.symm

/-! ## The range of an address -/

theorem parse4_lt {s : String} {n : Nat} (h : parse4 s = some n) : n < 2 ^ 32 := by
  rw [parse4] at h
  split at h
  · next a b c d hm =>
    cases h
    have hoct : ∀ x ∈ [a, b, c, d], x ≤ 255 := by
      intro x hx
      obtain ⟨part, -, hpart⟩ := exists_mem_of_mapM_eq_some hm hx
      simp only [parseOctet] at hpart
      split at hpart
      · next hcond =>
        cases hpart
        exact hcond.2.2.2.2
      · cases hpart
    have ha := hoct a (by simp)
    have hb := hoct b (by simp)
    have hc := hoct c (by simp)
    have hd := hoct d (by simp)
    omega
  · cases h

/-- The characters of an address are ASCII characters from the dot on. -/
theorem parse4_chars {s : String} {n : Nat} (h : parse4 s = some n) :
    ∀ c ∈ s.toList, 46 ≤ c.toNat ∧ c.toNat < 128 := by
  intro c hc
  rcases (parse4_text h).1 c hc with hdigit | rfl
  · have hrange : 48 ≤ c.toNat ∧ c.toNat ≤ 57 := by
      simpa [Char.isDigit, UInt32.le_iff_toNat_le] using hdigit
    omega
  · decide

/-- A hexadecimal digit is an ASCII character with a value below 16. -/
theorem hexDigit_eq_some {c : Char} {d : Nat} (h : hexDigit c = some d) :
    d < 16 ∧ 46 ≤ c.toNat ∧ c.toNat < 128 := by
  have hle : ∀ {x y : Char}, x ≤ y ↔ x.toNat ≤ y.toNat := Iff.rfl
  unfold hexDigit at h
  split at h
  · next hdigit =>
    cases h
    have hc : 48 ≤ c.toNat ∧ c.toNat ≤ 57 := by
      simpa [Char.isDigit, UInt32.le_iff_toNat_le] using hdigit
    change c.toNat - 48 < 16 ∧ _
    omega
  · split at h
    · next hlower =>
      cases h
      rw [hle, hle] at hlower
      change 97 ≤ c.toNat ∧ c.toNat ≤ 102 at hlower
      change c.toNat - 97 + 10 < 16 ∧ _
      omega
    · split at h
      · next hupper =>
        cases h
        rw [hle, hle] at hupper
        change 65 ≤ c.toNat ∧ c.toNat ≤ 70 at hupper
        change c.toNat - 65 + 10 < 16 ∧ _
        omega
      · cases h

/-- The digits of a group: their characters, and the bound of their value. -/
theorem foldlM_hexDigit {cs : List Char} {m n : Nat}
    (h : cs.foldlM (fun n c => (hexDigit c).map (16 * n + ·)) m = some n) :
    (∀ c ∈ cs, (hexDigit c).isSome) ∧ n < (m + 1) * 16 ^ cs.length := by
  induction cs generalizing m with
  | nil =>
    cases h
    simp
  | cons c cs ih =>
    rw [List.foldlM_cons] at h
    obtain ⟨k, hk, h⟩ := Option.bind_eq_some_iff.1 h
    obtain ⟨d, hd, rfl⟩ := Option.map_eq_some_iff.1 hk
    obtain ⟨hcs, hlt⟩ := ih h
    have hd16 := (hexDigit_eq_some hd).1
    refine ⟨List.forall_mem_cons.2 ⟨by rw [hd]; rfl, hcs⟩, hlt.trans_le ?_⟩
    calc (16 * m + d + 1) * 16 ^ cs.length
        ≤ ((m + 1) * 16) * 16 ^ cs.length := Nat.mul_le_mul_right _ (by omega)
      _ = (m + 1) * 16 ^ (c :: cs).length := by rw [List.length_cons, Nat.pow_succ', Nat.mul_assoc]

theorem parseHextet_eq_some {s : String} {n : Nat} (h : parseHextet s = some n) :
    (∀ c ∈ s.toList, 46 ≤ c.toNat ∧ c.toNat < 128) ∧ n < 65536 := by
  rw [parseHextet] at h
  split at h
  · next hlen =>
    obtain ⟨hcs, hlt⟩ := foldlM_hexDigit h
    constructor
    · intro c hc
      obtain ⟨d, hd⟩ := Option.isSome_iff_exists.1 (hcs c hc)
      exact (hexDigit_eq_some hd).2
    · have hpow : 16 ^ s.toList.length ≤ 16 ^ 4 := Nat.pow_le_pow_right (by decide) hlen.2
      omega
  · cases h

theorem ofGroups_lt {gs : List Nat} (h : ∀ g ∈ gs, g < 65536) :
    ofGroups gs < 65536 ^ gs.length := by
  have hfold : ∀ (gs : List Nat) (m : Nat), (∀ g ∈ gs, g < 65536) →
      gs.foldl (fun n g => 65536 * n + g) m < (m + 1) * 65536 ^ gs.length := by
    intro gs
    induction gs with
    | nil => simp
    | cons g gs ih =>
      intro m hgs
      have hg := hgs g (.head _)
      refine (ih _ fun g hg => hgs g (.tail _ hg)).trans_le ?_
      calc (65536 * m + g + 1) * 65536 ^ gs.length
          ≤ ((m + 1) * 65536) * 65536 ^ gs.length := Nat.mul_le_mul_right _ (by omega)
        _ = (m + 1) * 65536 ^ (g :: gs).length := by
          rw [List.length_cons, Nat.pow_succ', Nat.mul_assoc]
  simpa [ofGroups] using hfold gs 0 h

/-- The groups of the last part of a text. -/
def lastGroups (last : String) : Option (List (Option Nat)) :=
  if '.' ∈ last.toList then (parse4 last).map fun n => [some (n / 65536), some (n % 65536)]
  else if last = "" then some [none]
  else (parseHextet last).map fun n => [some n]

/-- The group of another part. -/
def initGroup (p : String) : Option (Option Nat) :=
  if p = "" then some none else (parseHextet p).map some

/-- The groups of a text, part for part. -/
theorem groups6_eq (s : String) : groups6 s =
    if (split ':' s).length < 3 then none
    else ((split ':' s).getLast?.bind lastGroups).bind fun lasts =>
      ((split ':' s).dropLast.mapM initGroup).bind fun inits =>
        if (inits ++ lasts).length ≤ 9 then some (inits ++ lasts) else none := by
  simp only [groups6]
  split
  · rfl
  · cases (split ':' s).getLast? with
    | none => rfl
    | some last =>
      simp only [Option.bind_some, lastGroups]
      split
      · rfl
      · split <;> rfl

/-- What a part of an address is written with. -/
theorem initGroup_eq_some {p : String} {g : Option Nat} (h : initGroup p = some g) :
    (∀ c ∈ p.toList, 46 ≤ c.toNat ∧ c.toNat < 128) ∧ ∀ n, g = some n → n < 65536 := by
  unfold initGroup at h
  split at h
  · next hempty =>
    cases h
    simp [hempty]
  · obtain ⟨n, hn, rfl⟩ := Option.map_eq_some_iff.1 h
    obtain ⟨hchars, hlt⟩ := parseHextet_eq_some hn
    exact ⟨hchars, fun m hm => Option.some.inj hm ▸ hlt⟩

theorem lastGroups_eq_some {last : String} {gs : List (Option Nat)}
    (h : lastGroups last = some gs) :
    (∀ c ∈ last.toList, 46 ≤ c.toNat ∧ c.toNat < 128) ∧ ∀ n, some n ∈ gs → n < 65536 := by
  unfold lastGroups at h
  split at h
  · obtain ⟨n, hn, rfl⟩ := Option.map_eq_some_iff.1 h
    have hlt := parse4_lt hn
    refine ⟨parse4_chars hn, fun m hm => ?_⟩
    rcases List.mem_pair.1 hm with hm | hm
    · cases hm
      omega
    · cases hm
      exact Nat.mod_lt _ (by decide)
  · split at h
    · next hempty =>
      cases h
      simp [hempty]
    · obtain ⟨n, hn, rfl⟩ := Option.map_eq_some_iff.1 h
      obtain ⟨hchars, hlt⟩ := parseHextet_eq_some hn
      refine ⟨hchars, fun m hm => ?_⟩
      cases List.mem_singleton.1 hm
      exact hlt

/-- The groups of a text: its characters, and the range of the groups. -/
theorem groups6_eq_some {s : String} {gs : List (Option Nat)} (h : groups6 s = some gs) :
    s ≠ "" ∧ (∀ c ∈ s.toList, 46 ≤ c.toNat ∧ c.toNat < 128) ∧ ∀ n, some n ∈ gs → n < 65536 := by
  rw [groups6_eq] at h
  split at h
  · cases h
  · next hlen =>
    obtain ⟨lasts, hlasts, h⟩ := Option.bind_eq_some_iff.1 h
    obtain ⟨last, hlast, hlasts⟩ := Option.bind_eq_some_iff.1 hlasts
    obtain ⟨inits, hinits, h⟩ := Option.bind_eq_some_iff.1 h
    split at h
    · cases h
      have hparts : ∀ part ∈ split ':' s, ∀ c ∈ part.toList, 46 ≤ c.toNat ∧ c.toNat < 128 := by
        intro part hpart
        rw [← List.dropLast_append_getLast? last hlast, List.mem_append,
          List.mem_singleton] at hpart
        rcases hpart with hpart | rfl
        · obtain ⟨g, hg⟩ := exists_of_mapM_eq_some hinits hpart
          exact (initGroup_eq_some hg).1
        · exact (lastGroups_eq_some hlasts).1
      refine ⟨?_, ?_, ?_⟩
      · rintro rfl
        exact hlen (by decide)
      · intro c hc
        rcases eq_or_mem_of_split ':' hc with rfl | ⟨part, hpart, hc⟩
        · decide
        · exact hparts part hpart c hc
      · intro n hn
        rcases List.mem_append.1 hn with hn | hn
        · obtain ⟨part, -, hpart⟩ := exists_mem_of_mapM_eq_some hinits hn
          exact (initGroup_eq_some hpart).2 n rfl
        · exact (lastGroups_eq_some hlasts).2 n hn
    · cases h

/-- The groups that stand for numbers are these numbers. -/
theorem lt_of_mapM_id {gs : List (Option Nat)} {ns : List Nat} (h : gs.mapM id = some ns)
    (hgs : ∀ n, some n ∈ gs → n < 65536) : ∀ n ∈ ns, n < 65536 := by
  intro n hn
  obtain ⟨g, hg, he⟩ := exists_mem_of_mapM_eq_some h hn
  exact hgs n (he ▸ hg)

/-- The groups on one side of `::`; a group at the edge of the text is empty only as part of it. -/
def sideGroups (edge : Option (Option Nat)) (gs : List (Option Nat)) : Option (List Nat) :=
  if edge = some none then (if gs.length = 1 then some [] else none) else gs.mapM id

theorem sideGroups_lt {edge : Option (Option Nat)} {gs : List (Option Nat)} {ns : List Nat}
    (h : sideGroups edge gs = some ns) (hgs : ∀ n, some n ∈ gs → n < 65536) :
    ∀ n ∈ ns, n < 65536 := by
  unfold sideGroups at h
  split at h
  · split at h
    · cases h
      exact fun n hn => absurd hn List.not_mem_nil
    · cases h
  · exact lt_of_mapM_id h hgs

/-- The integer of a text, from its groups. -/
theorem parse6_eq (s : String) : parse6 s = (groups6 s).bind fun gs =>
    match gs.tail.dropLast.count none with
    | 0 => (gs.mapM id).bind fun ns => if ns.length = 8 then some (ofGroups ns) else none
    | 1 =>
      let i := gs.tail.dropLast.idxOf none
      (sideGroups (gs.take (1 + i)).head? (gs.take (1 + i))).bind fun hi =>
        (sideGroups (gs.drop (2 + i)).getLast? (gs.drop (2 + i))).bind fun lo =>
          if hi.length + lo.length < 8 then
            some (ofGroups (hi ++ List.replicate (8 - (hi.length + lo.length)) 0 ++ lo))
          else none
    | _ => none := by
  rw [parse6]
  refine congrArg (groups6 s).bind (funext fun gs => ?_)
  dsimp only
  cases gs.tail.dropLast.count none with
  | zero => rfl
  | succ k =>
    cases k with
    | zero =>
      simp only [sideGroups]
      split_ifs <;> rfl
    | succ k => rfl

/-- The text of an address without a scope: its characters, and the range of the address. -/
theorem parse6_eq_some {s : String} {n : Nat} (h : parse6 s = some n) :
    s ≠ "" ∧ (∀ c ∈ s.toList, 46 ≤ c.toNat ∧ c.toNat < 128) ∧ n < 2 ^ 128 := by
  rw [parse6_eq] at h
  obtain ⟨gs, hgroups, h⟩ := Option.bind_eq_some_iff.1 h
  obtain ⟨hne, hchars, hlt⟩ := groups6_eq_some hgroups
  refine ⟨hne, hchars, ?_⟩
  have hrange : ∀ ns : List Nat, ns.length = 8 → (∀ n ∈ ns, n < 65536) → ofGroups ns < 2 ^ 128 := by
    intro ns hlen hns
    have hbound := ofGroups_lt hns
    rwa [hlen] at hbound
  split at h
  · obtain ⟨ns, hns, h⟩ := Option.bind_eq_some_iff.1 h
    split at h
    · next hlen =>
      cases h
      exact hrange ns hlen (lt_of_mapM_id hns hlt)
    · cases h
  · obtain ⟨hi, hhi, h⟩ := Option.bind_eq_some_iff.1 h
    obtain ⟨lo, hlo, h⟩ := Option.bind_eq_some_iff.1 h
    split at h
    · next hlen =>
      cases h
      refine hrange _ (by simp; omega) fun n hn => ?_
      rcases List.mem_append.1 hn with hn | hn
      · rcases List.mem_append.1 hn with hn | hn
        · exact sideGroups_lt hhi (fun m hm => hlt m (List.mem_of_mem_take hm)) n hn
        · rw [List.eq_of_mem_replicate hn]
          decide
      · exact sideGroups_lt hlo (fun m hm => hlt m (List.mem_of_mem_drop hm)) n hn
    · cases h
  · cases h

/-- An address of version 4 is a dotted quad. -/
theorem parse4_of_ofString {s : String} {n : Nat} (h : ofString s = some (.v4 n)) :
    parse4 s = some n := by
  rw [ofString] at h
  split at h
  · cases h
  · cases h4 : parse4 s with
    | some m =>
      rw [h4] at h
      cases h
      rfl
    | none =>
      rw [h4] at h
      obtain ⟨m, -, hm⟩ := Option.map_eq_some_iff.1 h
      cases hm

/-- An address of version 6 is one with or without a scope. -/
theorem parse6_of_ofString {s : String} {n : Nat} (h : ofString s = some (.v6 n)) :
    ∃ address, splitScope s = some address ∧ parse6 address = some n := by
  rw [ofString] at h
  split at h
  · cases h
  · cases h4 : parse4 s with
    | some m =>
      rw [h4] at h
      cases h
    | none =>
      rw [h4] at h
      obtain ⟨m, hm, he⟩ := Option.map_eq_some_iff.1 h
      cases he
      exact Option.bind_eq_some_iff.1 hm

/-- The two forms of a text with or without a scope. -/
theorem splitScope_eq_some {s address : String} :
    splitScope s = some address ↔ s = address ∧ '%' ∉ s.toList ∨
      ∃ scope, s = address ++ String.singleton '%' ++ scope ∧ '%' ∉ address.toList ∧
        '%' ∉ scope.toList ∧ scope ≠ "" := by
  rw [splitScope]
  constructor
  · intro h
    split at h
    · next a ha =>
      cases h
      exact .inl (split_eq_singleton.1 ha)
    · next a scope ha =>
      split at h
      · cases h
      · next hscope =>
        cases h
        obtain ⟨hs, haddress, hpercent⟩ := split_eq_pair.1 ha
        exact .inr ⟨scope, hs, haddress, hpercent, hscope⟩
    · cases h
  · rintro (h | ⟨scope, hs, haddress, hpercent, hscope⟩)
    · rw [split_eq_singleton.2 h]
    · rw [split_eq_pair.2 ⟨hs, haddress, hpercent⟩]
      exact if_neg hscope

/-- An address is in the range of its version. -/
theorem toNat_lt_of_ofString {s : String} {a : IpAddress} (h : ofString s = some a) :
    a.toNat < 2 ^ 128 := by
  cases a with
  | v4 n =>
    have hlt := parse4_lt (parse4_of_ofString h)
    exact hlt.trans (by decide)
  | v6 n =>
    obtain ⟨address, -, hparse⟩ := parse6_of_ofString h
    exact (parse6_eq_some hparse).2.2

/-- The first character of an address. -/
theorem head_of_ofString {s : String} {a : IpAddress} (h : ofString s = some a) :
    ∃ c cs, s.toList = c :: cs ∧ 46 ≤ c.toNat ∧ c.toNat < 128 := by
  cases a with
  | v4 n =>
    have hparse := parse4_of_ofString h
    obtain ⟨c, cs, hs, -⟩ := (parse4_text hparse).2
    exact ⟨c, cs, hs, parse4_chars hparse c (hs ▸ .head _)⟩
  | v6 n =>
    obtain ⟨address, hscope, hparse⟩ := parse6_of_ofString h
    obtain ⟨hne, hchars, -⟩ := parse6_eq_some hparse
    obtain ⟨c, cs, hc⟩ := List.exists_cons_of_ne_nil (mt String.toList_eq_nil_iff.1 hne)
    have hrange := hchars c (hc ▸ .head _)
    rcases splitScope_eq_some.1 hscope with ⟨rfl, -⟩ | ⟨scope, rfl, -⟩
    · exact ⟨c, cs, hc, hrange⟩
    · refine ⟨c, cs ++ '%' :: scope.toList, ?_, hrange⟩
      simp [hc]

/-- Text behind an address that no address is written with is part of the scope. -/
theorem eq_of_ofString_append {s w : String} {a b : IpAddress} (ha : ofString (s ++ w) = some a)
    (hb : ofString s = some b)
    (hw : ∀ c ∈ w.toList, ¬ (46 ≤ c.toNat ∧ c.toNat < 128) ∧ c ≠ '%') : b = a := by
  by_cases hempty : w.toList = []
  · rw [String.toList_eq_nil_iff] at hempty
    rw [hempty, String.append_empty, hb] at ha
    exact Option.some.inj ha
  obtain ⟨c, cs, hc⟩ := List.exists_cons_of_ne_nil hempty
  have hcw : c ∈ w.toList := hc ▸ .head _
  have hcs : c ∈ (s ++ w).toList := by simp [hcw]
  have hpercent : '%' ∉ w.toList := fun h => (hw _ h).2 rfl
  cases a with
  | v4 n => exact absurd (parse4_chars (parse4_of_ofString ha) c hcs) (hw c hcw).1
  | v6 n =>
    obtain ⟨address, hscope, hparse⟩ := parse6_of_ofString ha
    rcases splitScope_eq_some.1 hscope with ⟨he, -⟩ | ⟨scope, he, haddress, -⟩
    · rw [he] at hcs
      exact absurd ((parse6_eq_some hparse).2.1 c hcs) (hw c hcw).1
    -- the sign of the scope stands in front of the text behind
    have hs : '%' ∈ s.toList := by
      have hmem : '%' ∈ (s ++ w).toList := by simp [he]
      rw [String.toList_append, List.mem_append] at hmem
      exact hmem.resolve_right hpercent
    cases b with
    | v4 m =>
      exact absurd (parse4_chars (parse4_of_ofString hb) '%' hs) (by decide)
    | v6 m =>
      obtain ⟨address', hscope', hparse'⟩ := parse6_of_ofString hb
      rcases splitScope_eq_some.1 hscope' with ⟨-, hno⟩ | ⟨scope', rfl, haddress', -⟩
      · exact absurd hs hno
      · have hsplit := congrArg (splitOnce '%') he
        rw [String.append_assoc, splitOnce_append haddress', splitOnce_append haddress] at hsplit
        cases congrArg Prod.fst (Option.some.inj hsplit)
        rw [hparse'] at hparse
        exact congrArg IpAddress.v6 (Option.some.inj hparse)

/-! ## A printed address is read back -/

theorem parseOctet_toString : ∀ n < 256, parseOctet (toString n) = some n := by decide +kernel

/-- A printed IPv4 address is read back. -/
theorem parse4_exploded {n : Nat} (h : n < 2 ^ 32) : parse4 (exploded (.v4 n)) = some n := by
  have hsep : "." = String.singleton '.' := rfl
  have hoctet : ∀ i, parseOctet (toString (n / 2 ^ i % 256)) = some (n / 2 ^ i % 256) :=
    fun i => parseOctet_toString _ (Nat.mod_lt _ (by decide))
  have hparts : split '.' (exploded (.v4 n)) =
      [24, 16, 8, 0].map fun i => toString (n / 2 ^ i % 256) := by
    rw [exploded, hsep]
    refine split_intercalate (by simp) fun part hpart => ?_
    obtain ⟨i, -, rfl⟩ := List.mem_map.1 hpart
    exact not_mem_toString (by decide) _
  simp only [parse4, hparts, List.map_cons, List.map_nil, List.mapM_cons, List.mapM_nil, hoctet,
    Option.pure_def, Option.bind_eq_bind, Option.bind_some]
  have hvalue : ((n / 2 ^ 24 % 256 * 256 + n / 2 ^ 16 % 256) * 256 + n / 2 ^ 8 % 256) * 256 +
      n / 2 ^ 0 % 256 = n := by omega
  rw [hvalue]

theorem hexDigit_digitChar : ∀ d < 16, hexDigit (Nat.digitChar d) = some d := by decide

/-- A group is printed with its four digits. -/
theorem toList_showGroup {n : Nat} (h : n < 65536) : (showGroup n).toList =
    [Nat.digitChar (n / 4096), Nat.digitChar (n / 256 % 16), Nat.digitChar (n / 16 % 16),
      Nat.digitChar (n % 16)] := by
  have hb : 1 < 16 := by decide
  have h₁ : ∀ m, m < 16 → Nat.toDigits 16 m = [Nat.digitChar m] := fun m hm => by
    rw [Nat.toDigits_eq_if hb, if_pos hm]
  have h₂ : ∀ m, 16 ≤ m →
      Nat.toDigits 16 m = Nat.toDigits 16 (m / 16) ++ [Nat.digitChar (m % 16)] :=
    fun m hm => by rw [Nat.toDigits_eq_if hb, if_neg (by omega)]
  have hzero : Nat.digitChar 0 = '0' := rfl
  rw [showGroup, String.toList_ofList, List.leftpad]
  rcases Nat.lt_or_ge n 16 with h16 | h16
  · have e1 : n / 4096 = 0 := by omega
    have e2 : n / 256 % 16 = 0 := by omega
    have e3 : n / 16 % 16 = 0 := by omega
    have e4 : n % 16 = n := by omega
    rw [h₁ n h16, e1, e2, e3, e4]
    rfl
  rcases Nat.lt_or_ge n 256 with h256 | h256
  · have e1 : n / 4096 = 0 := by omega
    have e2 : n / 256 % 16 = 0 := by omega
    have e3 : n / 16 % 16 = n / 16 := by omega
    rw [h₂ n h16, h₁ (n / 16) (by omega), e1, e2, e3]
    rfl
  rcases Nat.lt_or_ge n 4096 with h4096 | h4096
  · have e1 : n / 4096 = 0 := by omega
    have e2 : n / 256 % 16 = n / 16 / 16 := by omega
    rw [h₂ n h16, h₂ (n / 16) (by omega), h₁ (n / 16 / 16) (by omega), e1, e2]
    rfl
  · have e1 : n / 4096 = n / 16 / 16 / 16 := by omega
    have e2 : n / 256 % 16 = n / 16 / 16 % 16 := by omega
    rw [h₂ n h16, h₂ (n / 16) (by omega), h₂ (n / 16 / 16) (by omega),
      h₁ (n / 16 / 16 / 16) (by omega), e1, e2]
    rfl

/-- A printed group is read back. -/
theorem parseHextet_showGroup {n : Nat} (h : n < 65536) : parseHextet (showGroup n) = some n := by
  have h1 := hexDigit_digitChar (n / 4096) (by omega)
  have h2 := hexDigit_digitChar (n / 256 % 16) (Nat.mod_lt _ (by decide))
  have h3 := hexDigit_digitChar (n / 16 % 16) (Nat.mod_lt _ (by decide))
  have h4 := hexDigit_digitChar (n % 16) (Nat.mod_lt _ (by decide))
  have hvalue :
      16 * (16 * (16 * (16 * 0 + n / 4096) + n / 256 % 16) + n / 16 % 16) + n % 16 = n := by
    omega
  rw [parseHextet, toList_showGroup h, if_pos (by simp)]
  simp only [List.foldlM_cons, List.foldlM_nil, h1, h2, h3, h4, Option.map_some,
    Option.bind_eq_bind, Option.bind_some, Option.pure_def, hvalue]

/-- The groups of an IPv6 address. -/
def groupsOf (n : Nat) : List Nat := [112, 96, 80, 64, 48, 32, 16, 0].map fun i => n / 2 ^ i % 65536

/-- A group behind the groups in front of it. -/
theorem group_step (n i : Nat) : 65536 * (n / 2 ^ (i + 16)) + n / 2 ^ i % 65536 = n / 2 ^ i := by
  rw [Nat.pow_add, ← Nat.div_div_eq_div_mul]
  exact Nat.div_add_mod (n / 2 ^ i) 65536

theorem ofGroups_groupsOf {n : Nat} (h : n < 2 ^ 128) : ofGroups (groupsOf n) = n := by
  have hhead : 65536 * 0 + n / 2 ^ 112 % 65536 = n / 2 ^ 112 := by omega
  simp only [ofGroups, groupsOf, List.map_cons, List.map_nil, List.foldl_cons, List.foldl_nil]
  rw [hhead, group_step n 96, group_step n 80, group_step n 64, group_step n 48, group_step n 32,
    group_step n 16, group_step n 0, Nat.pow_zero, Nat.div_one]

/-- A printed IPv6 address is split into its groups. -/
theorem split_exploded (n : Nat) :
    split ':' (exploded (.v6 n)) = (groupsOf n).map showGroup := by
  have hsep : ":" = String.singleton ':' := rfl
  have hdigit : ∀ d < 16, Nat.digitChar d ≠ ':' := by decide
  have hgroups : exploded (.v6 n) = ":".intercalate ((groupsOf n).map showGroup) := by
    rw [exploded, groupsOf, List.map_map]
    rfl
  rw [hgroups, hsep]
  refine split_intercalate (by simp [groupsOf]) fun part hpart hm => ?_
  obtain ⟨g, -, rfl⟩ := List.mem_map.1 hpart
  obtain ⟨d, hd, he⟩ := digitChar_of_mem_showGroup hm
  exact hdigit d hd he.symm

/-- A printed IPv6 address has no dot, no slash and no percent sign. -/
theorem not_mem_exploded_v6 {n : Nat} {c : Char} (hcolon : c ≠ ':')
    (hdigit : ∀ d < 16, Nat.digitChar d ≠ c) : c ∉ (exploded (.v6 n)).toList := by
  intro hm
  rcases eq_or_mem_of_split ':' hm with he | ⟨part, hpart, hc⟩
  · exact hcolon he
  · rw [split_exploded] at hpart
    obtain ⟨g, -, rfl⟩ := List.mem_map.1 hpart
    obtain ⟨d, hd, he⟩ := digitChar_of_mem_showGroup hc
    exact hdigit d hd he.symm

/-- The parts of a printed address are read as its groups. -/
theorem groups6_exploded (n : Nat) : groups6 (exploded (.v6 n)) = some ((groupsOf n).map some) := by
  have hg : ∀ g ∈ groupsOf n, g < 65536 := by
    intro g hg
    obtain ⟨i, -, rfl⟩ := List.mem_map.1 hg
    exact Nat.mod_lt _ (by decide)
  have hdot : ∀ m, '.' ∉ (showGroup m).toList := by
    intro m hm
    obtain ⟨d, hd, he⟩ := digitChar_of_mem_showGroup hm
    exact absurd he.symm ((by decide : ∀ d < 16, Nat.digitChar d ≠ '.') d hd)
  have hne : ∀ m, m < 65536 → showGroup m ≠ "" := by
    intro m hm he
    have hl := toList_showGroup hm
    rw [he] at hl
    cases hl
  have hinit : ∀ g ∈ groupsOf n, initGroup (showGroup g) = some (some g) := by
    intro g hm
    rw [initGroup, if_neg (hne g (hg g hm)), parseHextet_showGroup (hg g hm)]
    rfl
  have hlast : ∀ g ∈ groupsOf n, lastGroups (showGroup g) = some [some g] := by
    intro g hm
    rw [lastGroups, if_neg (hdot g), if_neg (hne g (hg g hm)), parseHextet_showGroup (hg g hm)]
    rfl
  rw [groups6_eq, split_exploded]
  simp only [groupsOf, List.map_cons, List.map_nil, List.forall_mem_cons] at hinit hlast ⊢
  obtain ⟨h0, h1, h2, h3, h4, h5, h6, -⟩ := hinit
  obtain ⟨-, -, -, -, -, -, -, h7, -⟩ := hlast
  simp only [List.length_cons, List.length_nil, List.getLast?_cons_cons, List.getLast?_singleton,
    List.dropLast_cons_cons, List.dropLast_singleton, List.mapM_cons, List.mapM_nil, h0, h1, h2, h3,
      h4,
    h5, h6, h7, Option.pure_def, Option.bind_eq_bind, Option.bind_some]
  rfl

/-- A printed IPv6 address is read back. -/
theorem parse6_exploded {n : Nat} (h : n < 2 ^ 128) : parse6 (exploded (.v6 n)) = some n := by
  have hcount : ((groupsOf n).map some).tail.dropLast.count none = 0 := by
    rw [List.count_eq_zero]
    intro hm
    have hm := List.mem_of_mem_tail (List.dropLast_subset _ hm)
    obtain ⟨g, -, he⟩ := List.mem_map.1 hm
    cases he
  have hnumbers : ((groupsOf n).map some).mapM id = some (groupsOf n) := by
    rw [List.mapM_map]
    exact List.mapM_pure
  rw [parse6_eq, groups6_exploded, Option.bind_some]
  simp only [hcount, hnumbers, Option.bind_some, ofGroups_groupsOf h]
  rfl

/-- A printed address is read back. -/
theorem ofString_exploded {n : Nat} {a : IpAddress} (h : ofNat n = some a) :
    ofString a.exploded = some a := by
  rw [ofNat] at h
  split at h
  · next h4 =>
    cases h
    have hslash : '/' ∉ (exploded (.v4 n)).toList := fun hm =>
      absurd ((parse4_text (parse4_exploded h4)).1 _ hm) (by decide)
    rw [ofString, if_neg hslash, parse4_exploded h4]
    rfl
  · split at h
    · next h6 =>
      cases h
      have hdigit : ∀ d < 16, Nat.digitChar d ≠ '.' ∧ Nat.digitChar d ≠ '/' ∧
          Nat.digitChar d ≠ '%' := by decide
      have hdot : '.' ∉ (exploded (.v6 n)).toList :=
        not_mem_exploded_v6 (by decide) fun d hd => (hdigit d hd).1
      have hslash : '/' ∉ (exploded (.v6 n)).toList :=
        not_mem_exploded_v6 (by decide) fun d hd => (hdigit d hd).2.1
      have hpercent : '%' ∉ (exploded (.v6 n)).toList :=
        not_mem_exploded_v6 (by decide) fun d hd => (hdigit d hd).2.2
      have hquad : parse4 (exploded (.v6 n)) = none := by
        rw [parse4, split_of_not_mem hdot]
        cases hoct : parseOctet (exploded (.v6 n)) <;> simp [hoct]
      have hscope : splitScope (exploded (.v6 n)) = some (exploded (.v6 n)) :=
        splitScope_eq_some.2 (.inl ⟨rfl, hpercent⟩)
      rw [ofString, if_neg hslash, hquad, hscope, Option.bind_some, parse6_exploded h6]
      rfl
    · cases h

/-- The address of an integer below 2^128. -/
theorem ofNat_eq_some {n : Nat} (h : n < 2 ^ 128) :
    ofNat n = some (if n < 2 ^ 32 then .v4 n else .v6 n) := by
  rw [ofNat, if_pos h]
  split <;> rfl

/-- A printed IPv6 address starts with its highest digit. -/
theorem exploded_v6_head (n : Nat) (h : n < 2 ^ 128) :
    (exploded (.v6 n)).toList.head? = some (Nat.digitChar (n / 2 ^ 124)) := by
  have hgroup := toList_showGroup (n := n / 2 ^ 112 % 65536) (Nat.mod_lt _ (by decide))
  have hdigit : n / 2 ^ 112 % 65536 / 4096 = n / 2 ^ 124 := by omega
  rw [hdigit] at hgroup
  rw [exploded, String.toList_intercalate]
  simp only [List.map_cons, List.intercalate_cons_cons, hgroup]
  rfl

end IpAddress

end Py
