import DpiProxy.Dns.Zones

namespace DpiProxy.Dns

open Wire Labels CText

section Names

def inAddr : Bytes := ascii ['i', 'n', '-', 'a', 'd', 'd', 'r']
def ip6 : Bytes := ascii ['i', 'p', '6']
def arpa : Bytes := ascii ['a', 'r', 'p', 'a']

-- The addresses that agree with `net` on their first `len` bits.
def InNet {width : Nat} (addr net : BitVec width) (len : Nat) : Prop :=
  addr.toNat / 2 ^ (width - len) = net.toNat / 2 ^ (width - len)

-- The network that starts with two octets, or with one group of 16 bits.
def netV4 (a b : Nat) : BitVec 32 := BitVec.ofNat 32 (a * 2 ^ 24 + b * 2 ^ 16)

def netV6 (group : Nat) : BitVec 128 := BitVec.ofNat 128 (group * 2 ^ 112)

def octet (addr : BitVec 32) (i : Nat) : Nat := addr.toNat / 256 ^ i % 256

def nibble (addr : BitVec 128) (i : Nat) : Nat := addr.toNat / 16 ^ i % 16

def octetLabels (addr : BitVec 32) : List Bytes :=
  [printNat (octet addr 0), printNat (octet addr 1), printNat (octet addr 2), printNat (octet addr 3)]

def nibbleLabels (addr : BitVec 128) : List Bytes :=
  (List.range 32).map fun i => [digitChar (nibble addr i)]

-- d.c.b.a.in-addr.arpa of the address a.b.c.d.
def reverseV4 (addr : BitVec 32) : Bytes := [DOT].intercalate (octetLabels addr ++ [inAddr, arpa])

-- The 32 hexadecimal digits of the address, the last one first.
def reverseV6 (addr : BitVec 128) : Bytes := [DOT].intercalate (nibbleLabels addr ++ [ip6, arpa])

theorem dot_notMem_printNat (n : Nat) : DOT ∉ printNat n := by
  intro hdot
  have hten := (printNat_digits n).2.1 DOT hdot
  exact absurd hten (by decide)

theorem dot_notMem_nibble (addr : BitVec 128) (i : Nat) : DOT ∉ [digitChar (nibble addr i)] := by
  have hlt : nibble addr i < 16 := Nat.mod_lt _ (by omega)
  have hdigits : ∀ c ∈ [nibble addr i].map digitChar, isDigit 16 c = true :=
    isDigit_digitChar le_rfl (by simpa using hlt)
  intro hdot
  exact absurd (hdigits DOT hdot) (by decide)

theorem reverseV4_labels (addr : BitVec 32) :
    (reverseV4 addr).splitOn DOT = octetLabels addr ++ [inAddr, arpa] := by
  apply List.splitOn_intercalate
  · have htail : ∀ label ∈ [inAddr, arpa], DOT ∉ label := by decide
    intro label hlabel
    rcases List.mem_append.mp hlabel with hlabel | hlabel
    · simp only [octetLabels, List.mem_cons, List.not_mem_nil, or_false] at hlabel
      rcases hlabel with rfl | rfl | rfl | rfl <;> exact dot_notMem_printNat _
    · exact htail label hlabel
  · simp

theorem reverseV6_labels (addr : BitVec 128) :
    (reverseV6 addr).splitOn DOT = nibbleLabels addr ++ [ip6, arpa] := by
  apply List.splitOn_intercalate
  · have htail : ∀ label ∈ [ip6, arpa], DOT ∉ label := by decide
    intro label hlabel
    rcases List.mem_append.mp hlabel with hlabel | hlabel
    · obtain ⟨i, -, rfl⟩ := List.mem_map.mp hlabel
      exact dot_notMem_nibble addr i
    · exact htail label hlabel
  · simp

end Names

section Zones

def privateV4 : List (List Bytes) :=
  [[printNat 10, inAddr, arpa], [printNat 168, printNat 192, inAddr, arpa],
   [printNat 254, printNat 169, inAddr, arpa]]

def privateV6 : List (List Bytes) :=
  [[[digitChar 12], [digitChar 15], ip6, arpa], [[digitChar 13], [digitChar 15], ip6, arpa],
   [[digitChar 8], [digitChar 14], [digitChar 15], ip6, arpa],
   [[digitChar 9], [digitChar 14], [digitChar 15], ip6, arpa],
   [[digitChar 10], [digitChar 14], [digitChar 15], ip6, arpa],
   [[digitChar 11], [digitChar 14], [digitChar 15], ip6, arpa]]

-- A zone that neither ends in `last` nor is an end of it.
def Apart (last zone : List Bytes) : Prop := ¬ last <:+ zone ∧ ¬ zone <:+ last

instance (last zone : List Bytes) : Decidable (Apart last zone) := inferInstanceAs (Decidable (_ ∧ _))

theorem Apart.not_suffix {last zone front : List Bytes} (h : Apart last zone) : ¬ zone <:+ front ++ last := by
  intro hzone
  rcases List.suffix_or_suffix_of_suffix hzone (List.suffix_append front last) with hend | hend
  · exact h.2 hend
  · exact h.1 hend

theorem zones_labels_v4 :
    (∀ zone ∈ zones, zone.splitOn DOT ∈ privateV4 ∨ Apart [inAddr, arpa] (zone.splitOn DOT)) ∧
      ∀ labels ∈ privateV4, ∃ zone ∈ zones, zone.splitOn DOT = labels := by
  decide +kernel

theorem zones_labels_v6 :
    (∀ zone ∈ zones, zone.splitOn DOT ∈ privateV6 ∨ Apart [ip6, arpa] (zone.splitOn DOT)) ∧
      ∀ labels ∈ privateV6, ∃ zone ∈ zones, zone.splitOn DOT = labels := by
  decide +kernel

-- Of the zones in the table only the private ones can match a reverse name.
theorem zones_any_iff {name : Bytes} {front last : List Bytes} {reserved : List (List Bytes)}
    (hname : name.splitOn DOT = front ++ last)
    (hzones : (∀ zone ∈ zones, zone.splitOn DOT ∈ reserved ∨ Apart last (zone.splitOn DOT)) ∧
      ∀ labels ∈ reserved, ∃ zone ∈ zones, zone.splitOn DOT = labels) :
    zones.any (inZone name) = true ↔ ∃ labels ∈ reserved, labels <:+ front ++ last := by
  simp only [List.any_eq_true, inZone_iff, under_iff_splitOn, hname]
  constructor
  · rintro ⟨zone, hzone, hend⟩
    rcases hzones.1 zone hzone with hprivate | hapart
    · exact ⟨_, hprivate, hend⟩
    · exact absurd hend hapart.not_suffix
  · rintro ⟨labels, hlabels, hend⟩
    obtain ⟨zone, hzone, rfl⟩ := hzones.2 labels hlabels
    exact ⟨zone, hzone, hend⟩

theorem octetZone_labels {net : List Char} (hnet : DOT ∉ ascii net) (n : Nat) :
    (octetZone net n).splitOn DOT = [printNat n, ascii net, inAddr, arpa] := by
  have hend : inAddrArpa = DOT :: (inAddr ++ DOT :: arpa) := by decide
  have h₁ : DOT ∉ inAddr := by decide
  have h₂ : DOT ∉ arpa := by decide
  rw [octetZone, hend, List.splitOn_append_cons_self, List.splitOn_append_cons_self,
    List.splitOn_append_cons_self, List.splitOn_eq_singleton (dot_notMem_printNat n),
    List.splitOn_eq_singleton hnet, List.splitOn_eq_singleton h₁, List.splitOn_eq_singleton h₂]
  rfl

theorem octetZones_any_iff {name : Bytes} : octetZones.any (inZone name) = true ↔
    ∃ n, (16 ≤ n ∧ n < 32 ∧ [printNat n, printNat 172, inAddr, arpa] <:+ name.splitOn DOT) ∨
      64 ≤ n ∧ n < 128 ∧ [printNat n, printNat 100, inAddr, arpa] <:+ name.splitOn DOT := by
  have h₁ : ascii ['1', '7', '2'] = printNat 172 := by decide +kernel
  have h₂ : ascii ['1', '0', '0'] = printNat 100 := by decide +kernel
  simp only [octetZones, List.any_append, List.any_map, Bool.or_eq_true, List.any_eq_true,
    List.mem_range'_1, Function.comp_apply, inZone_iff, under_iff_splitOn]
  simp only [octetZone_labels (show DOT ∉ ascii ['1', '7', '2'] by decide),
    octetZone_labels (show DOT ∉ ascii ['1', '0', '0'] by decide), h₁, h₂, and_assoc, exists_or, Nat.reduceAdd]

theorem dnsNameIsLocal_of_labels {name : Bytes} {first second : Bytes} {rest : List Bytes}
    (h : name.splitOn DOT = first :: second :: rest) :
    dnsNameIsLocal name = (zones.any (inZone name) || octetZones.any (inZone name)) := by
  have hdot : DOT ∈ name := by
    by_contra hno
    rw [List.splitOn_eq_singleton hno] at h
    cases h
  rw [dnsNameIsLocal, if_neg (List.ne_nil_of_mem hdot), if_neg (not_not_intro hdot)]

end Zones

section Addresses

theorem reverseV4_local_iff (addr : BitVec 32) : dnsNameIsLocal (reverseV4 addr) = true ↔
    octet addr 3 = 10 ∨ (octet addr 3 = 192 ∧ octet addr 2 = 168) ∨
    (octet addr 3 = 169 ∧ octet addr 2 = 254) ∨
    (octet addr 3 = 172 ∧ 16 ≤ octet addr 2 ∧ octet addr 2 < 32) ∨
    (octet addr 3 = 100 ∧ 64 ≤ octet addr 2 ∧ octet addr 2 < 128) := by
  have hlabels := reverseV4_labels addr
  rw [dnsNameIsLocal_of_labels hlabels, Bool.or_eq_true, zones_any_iff hlabels zones_labels_v4,
    octetZones_any_iff, hlabels]
  simp only [privateV4, octetLabels, List.suffix_iff_eq_drop]
  simp only [List.cons_append, List.nil_append, List.mem_cons, List.not_mem_nil, or_false,
    exists_eq_or_imp, exists_eq_left, List.length_cons, List.length_nil, List.drop_succ_cons,
    List.drop_zero, Nat.reduceAdd, Nat.reduceSub, List.cons.injEq, printNat_inj, and_true]
  constructor
  · rintro (h | ⟨n, h⟩) <;> omega
  · intro h
    by_cases hlisted : octet addr 3 = 10 ∨ octet addr 3 = 192 ∨ octet addr 3 = 169
    · exact .inl (by omega)
    · exact .inr ⟨octet addr 2, by omega⟩

-- The last four digits of a reverse name stand for the first 16 bits of the address.
theorem nibbleLabels_last (addr : BitVec 128) : ∃ front, nibbleLabels addr = front ++
    [[digitChar (nibble addr 28)], [digitChar (nibble addr 29)], [digitChar (nibble addr 30)],
      [digitChar (nibble addr 31)]] := by
  refine ⟨(List.range 28).map fun i => [digitChar (nibble addr i)], ?_⟩
  rw [nibbleLabels, List.range_succ, List.range_succ, List.range_succ, List.range_succ]
  simp

theorem digitChar_inj {m n : Nat} (hm : m < 16) (hn : n < 16) : digitChar m = digitChar n ↔ m = n := by
  constructor
  · intro h
    rw [← value_digitChar m hm, h, value_digitChar n hn]
  · exact congrArg digitChar

theorem reverseV6_local_iff (addr : BitVec 128) : dnsNameIsLocal (reverseV6 addr) = true ↔
    nibble addr 31 = 15 ∧ (nibble addr 30 = 12 ∨ nibble addr 30 = 13 ∨
      nibble addr 30 = 14 ∧ 8 ≤ nibble addr 29 ∧ nibble addr 29 < 12) := by
  have hlabels := reverseV6_labels addr
  obtain ⟨front, hfront⟩ := nibbleLabels_last addr
  have hoctets : octetZones.any (inZone (reverseV6 addr)) = false := by
    have hne : inAddr ≠ ip6 := by decide
    rw [← Bool.not_eq_true, octetZones_any_iff, hlabels, hfront, List.append_assoc]
    rintro ⟨n, ⟨-, -, hend⟩ | ⟨-, -, hend⟩⟩
    · rw [suffix_append_iff (by simp), List.suffix_iff_eq_drop] at hend
      simp [hne] at hend
    · rw [suffix_append_iff (by simp), List.suffix_iff_eq_drop] at hend
      simp [hne] at hend
  obtain ⟨first, second, rest, hsplit⟩ : ∃ first second rest,
      (reverseV6 addr).splitOn DOT = first :: second :: rest := by
    rw [hlabels]
    exact ⟨_, _, _, rfl⟩
  have hlt : ∀ i, nibble addr i < 16 := fun i => Nat.mod_lt _ (by omega)
  rw [dnsNameIsLocal_of_labels hsplit, hoctets, Bool.or_false, zones_any_iff hlabels zones_labels_v6,
    hfront, List.append_assoc]
  simp only [privateV6, List.mem_cons, List.not_mem_nil, or_false, exists_eq_or_imp, exists_eq_left]
  simp (disch := simp) only [suffix_append_iff]
  simp only [List.suffix_iff_eq_drop, List.cons_append, List.nil_append, List.length_cons, List.length_nil,
    List.drop_succ_cons, List.drop_zero, Nat.reduceAdd, Nat.reduceSub, List.cons.injEq, and_true]
  simp (disch := first | exact hlt _ | omega) only [digitChar_inj]
  omega

end Addresses

section Nets

variable (addr : BitVec 32)

theorem inNet_8 {a : Nat} (ha : a < 256) : InNet addr (netV4 a 0) 8 ↔ octet addr 3 = a := by
  have hlt := addr.isLt
  simp only [InNet, netV4, octet, BitVec.toNat_ofNat]
  omega

theorem inNet_16 {a b : Nat} (ha : a < 256) (hb : b < 256) :
    InNet addr (netV4 a b) 16 ↔ octet addr 3 = a ∧ octet addr 2 = b := by
  have hlt := addr.isLt
  simp only [InNet, netV4, octet, BitVec.toNat_ofNat]
  omega

theorem inNet_12 : InNet addr (netV4 172 16) 12 ↔
    octet addr 3 = 172 ∧ 16 ≤ octet addr 2 ∧ octet addr 2 < 32 := by
  have hlt := addr.isLt
  simp only [InNet, netV4, octet, BitVec.toNat_ofNat]
  omega

theorem inNet_10 : InNet addr (netV4 100 64) 10 ↔
    octet addr 3 = 100 ∧ 64 ≤ octet addr 2 ∧ octet addr 2 < 128 := by
  have hlt := addr.isLt
  simp only [InNet, netV4, octet, BitVec.toNat_ofNat]
  omega

theorem inNetV6_7 (addr : BitVec 128) : InNet addr (netV6 0xfc00) 7 ↔
    nibble addr 31 = 15 ∧ (nibble addr 30 = 12 ∨ nibble addr 30 = 13) := by
  have hlt := addr.isLt
  simp only [InNet, netV6, nibble, BitVec.toNat_ofNat]
  omega

theorem inNetV6_10 (addr : BitVec 128) : InNet addr (netV6 0xfe80) 10 ↔
    nibble addr 31 = 15 ∧ nibble addr 30 = 14 ∧ 8 ≤ nibble addr 29 ∧ nibble addr 29 < 12 := by
  have hlt := addr.isLt
  simp only [InNet, netV6, nibble, BitVec.toNat_ofNat]
  omega

end Nets

theorem private_reverse_names_local :
    (∀ addr : BitVec 32, dnsNameIsLocal (reverseV4 addr) = true ↔
      InNet addr (netV4 10 0) 8 ∨ InNet addr (netV4 192 168) 16 ∨ InNet addr (netV4 169 254) 16 ∨
      InNet addr (netV4 172 16) 12 ∨ InNet addr (netV4 100 64) 10) ∧
    ∀ addr : BitVec 128, dnsNameIsLocal (reverseV6 addr) = true ↔
      InNet addr (netV6 0xfc00) 7 ∨ InNet addr (netV6 0xfe80) 10 := by
  constructor
  · intro addr
    rw [reverseV4_local_iff, inNet_8 addr (by decide), inNet_16 addr (by decide) (by decide),
      inNet_16 addr (by decide) (by decide), inNet_12, inNet_10]
  · intro addr
    rw [reverseV6_local_iff, inNetV6_7, inNetV6_10]
    tauto

end DpiProxy.Dns
